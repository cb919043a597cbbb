import ASky.Service.Answers

/-!
# What an ok stands for

`Done` is what a client may conclude from a positive answer, operation by operation: the required
fields were strings, the operation was allowed in the state before, and the store and the answer
are what the operation is for. `Removed` is its clause for `DELETE /access/user`, in terms of
users, memberships and group names.

The service answers ok to more than that. Three branches of the source do it:

* a verb outside GET, PUT, POST and DELETE runs no handler and leaves `error` at `ASKY_NOERROR`;
* `nlohmann::detail::type_error` is caught by `std::exception`, which leaves it so too;
* `DELETE /access/user` passes the id through `c_str()`, so it deletes the bytes before the first
  NUL, while `create_user` keeps the whole string.

**`ok_means_done_iff`** says that these three are all, and **`deleteUser_removes_iff`** when a
deletion is right.
-/

namespace ASky

open Std (ExtTreeMap ExtTreeSet)
open Lib

namespace MemDatabase

/-! ## Deleting a user -/

/-- `db'` is `db` without the user `u`, and nothing else is changed. -/
structure Removed (db db' : MemDatabase) (u : Bytes) : Prop where
  unknown : u ∉ db'.users
  not_member : ∀ g, ¬ db'.Member u g
  other_keys : ∀ v, v ≠ u → db'.users[v]? = db.users[v]?
  other_members : ∀ v g, v ≠ u → (db'.Member v g ↔ db.Member v g)
  group_names : ∀ g, g ∈ db'.groups ↔ g ∈ db.groups

theorem removed_deleteUser (db : MemDatabase) (u : Bytes) : Removed db (db.deleteUser u) u where
  unknown h := (ExtTreeMap.mem_erase.mp h).1 Std.ReflCmp.compare_self
  not_member g h := (member_deleteUser.mp h).1 rfl
  other_keys v hv := by
    unfold deleteUser
    rw [getElem?_erase, if_neg hv]
  other_members v g hv := by
    rw [member_deleteUser]
    exact and_iff_right hv
  group_names g := ExtTreeMap.mem_map

/-- A deletion of an id nobody has. -/
theorem removed_of_unknown {db : MemDatabase} (hi : Integrity db) {u w : Bytes}
    (hu : u ∉ db.users) (hw : w ∉ db.users) : Removed db (db.deleteUser w) u where
  unknown h := hu (ExtTreeMap.mem_erase.mp h).2
  not_member g h := hu (hi u g (member_deleteUser.mp h).2)
  other_keys v _ := by
    unfold deleteUser
    rw [getElem?_erase]
    split
    · rename_i hvw
      rw [hvw, ExtTreeMap.getElem?_eq_none hw]
    · rfl
  other_members v g _ := by
    rw [member_deleteUser]
    refine and_iff_right_of_imp ?_
    rintro hm rfl
    exact hw (hi v g hm)
  group_names g := ExtTreeMap.mem_map

/-- Deleting the id `w` in place of `u` is right only if they are equal or both unknown. -/
theorem removed_deleteUser_iff {db : MemDatabase} (hi : Integrity db) {u w : Bytes} :
    Removed db (db.deleteUser w) u ↔ w = u ∨ (u ∉ db.users ∧ w ∉ db.users) := by
  constructor
  · intro h
    by_cases hwu : w = u
    · exact Or.inl hwu
    · refine Or.inr ⟨fun hu => h.unknown ?_, fun hw => ?_⟩
      · exact ExtTreeMap.mem_erase.mpr
          ⟨fun hc => hwu (Std.LawfulEqCmp.compare_eq_iff_eq.mp hc), hu⟩
      · have hkey := h.other_keys w hwu
        unfold deleteUser at hkey
        rw [getElem?_erase, if_pos rfl] at hkey
        exact not_mem_of_getElem? hkey.symm hw
  · rintro (rfl | ⟨hu, hw⟩)
    · exact removed_deleteUser db w
    · exact removed_of_unknown hi hu hw

end MemDatabase

namespace AnonymBE

/-! ## What a positive answer should mean -/

/-- What a positive answer to an operation should mean, for the store before and after. -/
def Done (env : Env) (draw : Draw) (indexed : Bool) (db db' : MemDatabase) (request : Request)
    (r : Response) : Endpoint → Prop
  | .ping => db' = db
  | .createUser => ∃ u, env.Field request (lit "user_id") u ∧ u ∉ db.users ∧
      db' = { db with users := db.users.insert u draw.key.val } ∧
      r.field (lit "user_key") = some (env.crypto.b64Encode draw.key.val)
  | .createGroup => ∃ g u, env.Field request (lit "group_name") g ∧
      env.Field request (lit "user_id") u ∧ g ∉ db.groups ∧ u ∈ db.users ∧
      db' = { db with groups := db.groups.insert g ((∅ : Members).insert u) }
  | .addUser => ∃ g u members, env.Field request (lit "group_name") g ∧
      env.Field request (lit "user_id") u ∧ db.groups[g]? = some members ∧ u ∈ db.users ∧
      (u ∉ members ∧ db' = { db with groups := db.groups.insert g (members.insert u) } ∨
        u ∈ members ∧ db' = db ∧ (r.field (lit "info")).isSome = true)
  | .removeUser => ∃ g u members, env.Field request (lit "group_name") g ∧
      env.Field request (lit "user_id") u ∧ db.groups[g]? = some members ∧ u ∈ members ∧
      db' = { db with groups := db.groups.insert g (members.erase u) }
  | .deleteUser => ∃ u, env.Field request (lit "user_id") u ∧ db.Removed db' u
  | .deleteAll => db' = {}
  | .envelope => ∃ b g members, env.Field request (lit "bucket_key") b ∧
      env.Field request (lit "group_id") g ∧ db.groups[g]? = some members ∧
      members.isEmpty = false ∧ db' = db ∧
      r.field (lit "ciphertext") = some (env.crypto.b64Encode (envelopeText env.crypto indexed
        draw.nonce (resize (env.crypto.b64Decode b) 32) draw.iv
        (members.toList.map fun uid => keyOf (db.users.getD uid []))))
  | .belongs => ∃ u g members, env.Field request (lit "user_id") u ∧
      env.Field request (lit "group_name") g ∧ db.groups[g]? = some members ∧ db' = db ∧
      r.field (lit "belongs") = some (if u ∈ members then lit "true" else lit "false")

/-- The request takes none of the three branches: its verb is one of the four, no `json_str` of
its operation meets a value of the wrong type, and the id of a deletion has no NUL, unless neither
it nor its part before the NUL is a user. -/
structure Sound (env : Env) (db : MemDatabase) (request : Request) : Prop where
  verb : knownVerb request
  fields : ∀ j what, env.parse request.body = .ok j →
    env.readFields request j ≠ .error (.typeError what)
  deletion : ∀ u, endpoint request = some .deleteUser → env.Field request (lit "user_id") u →
    (0 : UInt8) ∉ u ∨ (u ∉ db.users ∧ cStr u ∉ db.users)

variable {env : Env} {draw : Draw} {indexed : Bool} {db : MemDatabase} {request : Request}

theorem field_unique {key v w : Bytes} (hv : env.Field request key v)
    (hw : env.Field request key w) : v = w := by
  obtain ⟨j, hj, hv⟩ := hv
  obtain ⟨j', hj', hw⟩ := hw
  rw [hj] at hj'
  rw [← Except.ok.inj hj', hv] at hw
  exact Except.ok.inj hw

/-- An operation that is done had its fields. -/
theorem Done.required {e : Endpoint} {db' : MemDatabase} {r : Response}
    (h : Done env draw indexed db db' request r e) :
    ∀ key ∈ e.required, ∃ v, env.Field request key v := by
  have hnone : ∀ key ∈ ([] : List Bytes), ∃ x, env.Field request key x :=
    fun key hk => absurd hk List.not_mem_nil
  cases e with
  | ping => exact hnone
  | deleteAll => exact hnone
  | createUser =>
    obtain ⟨u, hu, -⟩ := h
    exact Env.forall_required₁ hu
  | deleteUser =>
    obtain ⟨u, hu, -⟩ := h
    exact Env.forall_required₁ hu
  | createGroup =>
    obtain ⟨g, u, hg, hu, -⟩ := h
    exact Env.forall_required₂ hg hu
  | addUser =>
    obtain ⟨g, u, _, hg, hu, -⟩ := h
    exact Env.forall_required₂ hg hu
  | removeUser =>
    obtain ⟨g, u, _, hg, hu, -⟩ := h
    exact Env.forall_required₂ hg hu
  | envelope =>
    obtain ⟨b, g, _, hb, hg, -⟩ := h
    exact Env.forall_required₂ hb hg
  | belongs =>
    obtain ⟨u, g, _, hu, hg, -⟩ := h
    exact Env.forall_required₂ hu hg

theorem knownVerb_of_endpoint {e : Endpoint} (he : endpoint request = some e) :
    knownVerb request := by
  by_contra hv
  obtain ⟨h1, hv⟩ := not_or.mp hv
  obtain ⟨h2, hv⟩ := not_or.mp hv
  obtain ⟨h3, h4⟩ := not_or.mp hv
  rw [endpoint, if_neg h1, if_neg h2, if_neg h3, if_neg h4] at he
  exact absurd he (by simp)

/-! ## From the end of a request to what happened -/

/-- A request that took none of the three branches and is answered ok did what it says. -/
theorem Handles.done {h : Handled} (hh : Handles env draw indexed db request h)
    (hi : db.Integrity) (hs : Sound env db request)
    (hp : (answer (settle request h)).Positive) :
    ∃ e, endpoint request = some e ∧
      Done env draw indexed db h.database request (answer (settle request h)) e := by
  obtain ⟨herr, hfield⟩ := answer_positive hp
  -- a key of the response map is a field of the answer
  have hresp : ∀ {k v : Bytes}, (settle request h).response[k]? = some v →
      (answer (settle request h)).field k = some v := by
    intro k v hk
    rw [hfield, hk]
    rfl
  cases hh with
  | otherVerb hv => exact absurd hs.verb hv
  | unknownCommand hv he =>
    simp only [settle, ExtTreeMap.getElem?_empty] at herr
    exact absurd herr (by decide)
  | badBody hv hb =>
    rcases Env.parseBody_error hb with ⟨what, rfl⟩ | ⟨what, rfl⟩
    · exact absurd herr (by simp [settle, catchClauses])
    · exact absurd herr (by simp [settle, catchClauses])
  | badField hv hj hf =>
    rename_i j e
    cases e with
    | parseError what => exact absurd herr (by simp [settle, catchClauses])
    | outOfRange what => exact absurd herr (by simp [settle, catchClauses])
    | typeError what => exact absurd hf (hs.fields j what hj)
  | refused he hd hf => exact absurd herr (by simp [settle, catchClauses])
  | emptyEnvelope he hf =>
    simp only [settle, getElem?_insert, if_pos] at herr
    exact absurd herr (by decide)
  | ping he => exact ⟨_, he, rfl⟩
  | createUser he hu hn =>
    refine ⟨_, he, _, hu, hn, rfl, hresp ?_⟩
    exact ExtTreeMap.getElem?_insert_self
  | createGroup he hg hu hn hm => exact ⟨_, he, _, _, hg, hu, hn, hm, rfl⟩
  | addUser he hg hu hs hm hn => exact ⟨_, he, _, _, _, hg, hu, hs, hm, Or.inl ⟨hn, rfl⟩⟩
  | already he hg hu hs hm hn =>
    refine ⟨_, he, _, _, _, hg, hu, hs, hm, Or.inr ⟨hn, rfl, ?_⟩⟩
    rw [hresp ExtTreeMap.getElem?_insert_self]
    rfl
  | removeUser he hg hu hs hm hn => exact ⟨_, he, _, _, _, hg, hu, hs, hn, rfl⟩
  | deleteUser he hu =>
    refine ⟨_, he, _, hu, (MemDatabase.removed_deleteUser_iff hi).mpr ?_⟩
    exact (hs.deletion _ he hu).imp_left cStr_eq_self_iff.mpr
  | deleteAll he => exact ⟨_, he, rfl⟩
  | envelope he hb hg hk =>
    rename_i b g ka
    rw [MemDatabase.getKeysOfGroup_eq] at hk
    cases hgs : db.groups[g]? with
    | none =>
      rw [hgs] at hk
      exact absurd hk (by simp)
    | some members =>
      rw [hgs] at hk
      simp only at hk
      split at hk
      · exact absurd hk (by simp)
      · rename_i hne
        refine ⟨_, he, b, g, members, hb, hg, hgs, Bool.not_eq_true _ ▸ hne, rfl, hresp ?_⟩
        rw [← MemDatabase.filterMap_keys_of_integrity hi hgs, Except.ok.inj hk]
        exact ExtTreeMap.getElem?_insert_self
  | belongs he hu hg hs =>
    refine ⟨_, he, _, _, _, hu, hg, hs, rfl, hresp ?_⟩
    exact ExtTreeMap.getElem?_insert_self

/-- A `type_error` in a field ends the request without a trace. -/
theorem Handles.typeError {h : Handled} (hh : Handles env draw indexed db request h)
    (hv : knownVerb request) {j : Json} {what : Bytes} (hj : env.parse request.body = .ok j)
    (hf : env.readFields request j = .error (.typeError what)) :
    h = ⟨.error (.json (.typeError what)), ∅, db⟩ := by
  have hno : ∀ {e : Endpoint}, endpoint request = some e →
      (∀ key ∈ e.required, ∃ v, env.Field request key v) → False := by
    intro e he hreq
    rw [Env.readFields_ok he hj hreq] at hf
    exact absurd hf (by simp)
  cases hh with
  | otherVerb hv' => exact absurd hv hv'
  | unknownCommand hv he =>
    rw [Env.readFields, he] at hf
    exact absurd hf (by simp)
  | badBody hv hb =>
    rw [Env.parseBody, hj] at hb
    exact absurd hb (by simp)
  | badField hv hj' hf' =>
    rw [hj] at hj'
    rw [← Except.ok.inj hj', hf] at hf'
    rw [← Except.error.inj hf']
  | refused he hd hreq => exact (hno he hreq).elim
  | emptyEnvelope he hreq => exact (hno he hreq).elim
  | ping he => exact (hno he (by simp [Endpoint.required])).elim
  | createUser he hu hn => exact (hno he (Env.forall_required₁ hu)).elim
  | createGroup he hg hu hn hm => exact (hno he (Env.forall_required₂ hg hu)).elim
  | addUser he hg hu hs hm hn => exact (hno he (Env.forall_required₂ hg hu)).elim
  | already he hg hu hs hm hn => exact (hno he (Env.forall_required₂ hg hu)).elim
  | removeUser he hg hu hs hm hn => exact (hno he (Env.forall_required₂ hg hu)).elim
  | deleteUser he hu => exact (hno he (Env.forall_required₁ hu)).elim
  | deleteAll he => exact (hno he (by simp [Endpoint.required])).elim
  | envelope he hb hg hk => exact (hno he (Env.forall_required₂ hb hg)).elim
  | belongs he hu hg hs => exact (hno he (Env.forall_required₂ hu hg)).elim

/-- A deletion with its field always runs, on the part of the id before the NUL. -/
theorem Handles.deleteUser_eq {h : Handled} (hh : Handles env draw indexed db request h)
    (he : endpoint request = some .deleteUser) {u : Bytes}
    (hu : env.Field request (lit "user_id") u) :
    h = ⟨.ok .noError, ∅, db.deleteUser (cStr u)⟩ := by
  obtain ⟨j, hj, hju⟩ := id hu
  cases hh with
  | otherVerb hv => exact absurd (knownVerb_of_endpoint he) hv
  | badBody hv hb =>
    rw [Env.parseBody, hj] at hb
    exact absurd hb (by simp)
  | badField hv hj' hf =>
    rw [hj] at hj'
    rw [← Except.ok.inj hj', Env.readFields, he] at hf
    simp only [hju] at hf
    exact absurd hf (by simp [Except.map])
  | refused he' hd hf =>
    rw [he] at he'
    exact absurd (Option.some.inj he').symm hd
  | deleteUser he' hu' => rw [field_unique hu hu']
  | _ => simp_all

/-! ## The results -/

/-- An end in `ASKY_NOERROR` with an empty response map is answered ok. -/
theorem positive_of_dispatch {s : AnonymBE} {h : Handled} (hd : dispatch env draw s request = h)
    (he : (settle request h).error = .noError) (hr : (settle request h).response = ∅) :
    (processInput env draw s request).1.Positive := by
  rw [processInput_fst, hd]
  exact positive_answer_empty he hr

/-- A deletion is answered ok, and deletes the part of the id before the NUL. -/
theorem processInput_deleteUser (draw : Draw) (s : AnonymBE)
    (he : endpoint request = some .deleteUser) {u : Bytes}
    (hu : env.Field request (lit "user_id") u) :
    (processInput env draw s request).1.Positive ∧
      (processInput env draw s request).2.database = s.database.deleteUser (cStr u) := by
  have hd := (dispatch_handles env draw s request).deleteUser_eq he hu
  refine ⟨positive_of_dispatch hd rfl rfl, ?_⟩
  rw [processInput_database, hd]

/-- **A request is answered ok only if it happened, exactly for the sound requests**: in every
state of a service, for every request and all random bytes, "a positive answer means that the
method and path name an operation and that it is done" holds if and only if the request takes none
of the three branches. -/
theorem ok_means_done_iff {env : Env} {s : AnonymBE} (hr : Reachable env s) (draw : Draw)
    (request : Request) :
    ((processInput env draw s request).1.Positive →
      ∃ e, endpoint request = some e ∧ Done env draw s.indexed s.database
        (processInput env draw s request).2.database request
        (processInput env draw s request).1 e) ↔
    Sound env s.database request := by
  have hh := dispatch_handles env draw s request
  have hi := integrity_of_reachable hr
  constructor
  · intro hp
    have hverb : knownVerb request := by
      by_contra hv
      obtain ⟨e, he, -⟩ := hp (positive_of_dispatch (dispatch_otherVerb env draw s hv) rfl rfl)
      exact hv (knownVerb_of_endpoint he)
    refine ⟨hverb, ?_, ?_⟩
    · intro j what hj hf
      obtain ⟨e, he, hdone⟩ := hp (positive_of_dispatch (hh.typeError hverb hj hf) rfl rfl)
      rw [Env.readFields_ok he hj hdone.required] at hf
      exact absurd hf (by simp)
    · intro u he hu
      obtain ⟨hpos, hdb⟩ := processInput_deleteUser draw s he hu
      obtain ⟨e, he', hdone⟩ := hp hpos
      rw [he] at he'
      rw [← Option.some.inj he'] at hdone
      obtain ⟨u', hu', hrem⟩ := hdone
      rw [← field_unique hu hu', hdb] at hrem
      exact ((MemDatabase.removed_deleteUser_iff hi).mp hrem).imp_left cStr_eq_self_iff.mp
  · intro hs hp
    exact hh.done hi hs hp

/-- The theorem at a sound request: `POST /access/user` with `{"user_id": "a"}`. -/
theorem ok_means_done_sample :
    (processInput .sample .sample (initialised true)
        ⟨lit "POST", lit "/access/user", userBody "\"a\""⟩).1.Positive ∧
      ∃ e, endpoint ⟨lit "POST", lit "/access/user", userBody "\"a\""⟩ = some e ∧
        Done .sample .sample true {} (processInput .sample .sample (initialised true)
            ⟨lit "POST", lit "/access/user", userBody "\"a\""⟩).2.database
          ⟨lit "POST", lit "/access/user", userBody "\"a\""⟩
          (processInput .sample .sample (initialised true)
            ⟨lit "POST", lit "/access/user", userBody "\"a\""⟩).1 e := by
  have hpos : (processInput .sample .sample (initialised true)
      ⟨lit "POST", lit "/access/user", userBody "\"a\""⟩).1.Positive := by decide +kernel
  refine ⟨hpos, (ok_means_done_iff (show Reachable .sample _ from .init true) .sample _).mpr
    ⟨?_, ?_, ?_⟩ hpos⟩
  · exact Or.inr (Or.inr (Or.inl rfl))
  · intro j what hj hf
    have hok : Env.sample.readFields ⟨lit "POST", lit "/access/user", userBody "\"a\""⟩
        (.object [(lit "user_id", .string [97])]) = .ok () := by decide
    rw [← Except.ok.inj (Env.sample_parse_a.symm.trans hj), hok] at hf
    exact absurd hf (by simp)
  · intro u he
    exact absurd he (by decide)

/-- `POST /access/user` with `{"user_id": 5}` on an empty service is answered ok, and no user is
created. -/
theorem ok_without_user :
    Reachable .sample (initialised true) ∧
      (processInput .sample .sample (initialised true)
        ⟨lit "POST", lit "/access/user", userBody "5"⟩).1.Positive ∧
      ¬ ∃ e, endpoint ⟨lit "POST", lit "/access/user", userBody "5"⟩ = some e ∧
        Done .sample .sample true {} (processInput .sample .sample (initialised true)
            ⟨lit "POST", lit "/access/user", userBody "5"⟩).2.database
          ⟨lit "POST", lit "/access/user", userBody "5"⟩
          (processInput .sample .sample (initialised true)
            ⟨lit "POST", lit "/access/user", userBody "5"⟩).1 e := by
  have hj := Env.sample_parse_5
  have hf : Env.sample.readFields ⟨lit "POST", lit "/access/user", userBody "5"⟩
      (.object [(lit "user_id", .numberUnsigned 5)]) = .error (.typeError
        (lit "[json.exception.type_error.302] type must be string, but is number")) := by decide
  have hd := (dispatch_handles .sample .sample (initialised true)
    ⟨lit "POST", lit "/access/user", userBody "5"⟩).typeError (Or.inr (Or.inr (Or.inl rfl))) hj hf
  refine ⟨.init true, positive_of_dispatch hd rfl rfl, ?_⟩
  rintro ⟨e, he, hdone⟩
  have hok := Env.readFields_ok he hj hdone.required
  rw [hf] at hok
  exact absurd hok (by simp)

/-- **Deleting a user deletes that user and nobody else, exactly when** the id has no NUL byte, or
neither the id nor its part before the NUL is a user. -/
theorem deleteUser_removes_iff {env : Env} {s : AnonymBE} (hr : Reachable env s) (draw : Draw)
    {request : Request} (hm : request.method = lit "DELETE")
    (hp : request.encodedPath = lit "/access/user") {u : Bytes}
    (hu : env.Field request (lit "user_id") u) :
    ((processInput env draw s request).1.Positive →
      s.database.Removed (processInput env draw s request).2.database u) ↔
    ((0 : UInt8) ∉ u ∨ (u ∉ s.database.users ∧ cStr u ∉ s.database.users)) := by
  have he : endpoint request = some .deleteUser := by
    rw [endpoint_delete hm, if_neg (by rw [hp]; decide), if_pos hp]
  have hi := integrity_of_reachable hr
  obtain ⟨hpos, hdb⟩ := processInput_deleteUser draw s he hu
  rw [hdb, MemDatabase.removed_deleteUser_iff hi, cStr_eq_self_iff]
  exact ⟨fun h => h hpos, fun h _ => h⟩

/-- The theorem for the deletion of `a` from a store of two users who are both in `g`. -/
theorem deleteUser_removes_sample :
    withGroup.database.Member [97] [103] ∧ withGroup.database.Member [98] [103] ∧
      (processInput (Env.code .sample .rightFirst) nextDraw withGroup
        ⟨lit "DELETE", lit "/access/user", userBody "\"a\""⟩).1.Positive ∧
      withGroup.database.Removed (processInput (Env.code .sample .rightFirst) nextDraw withGroup
        ⟨lit "DELETE", lit "/access/user", userBody "\"a\""⟩).2.database [97] := by
  have hpos : (processInput (Env.code .sample .rightFirst) nextDraw withGroup
      ⟨lit "DELETE", lit "/access/user", userBody "\"a\""⟩).1.Positive := by decide +kernel
  refine ⟨⟨_, rfl, by decide +kernel⟩, ⟨_, rfl, by decide +kernel⟩, hpos,
    (deleteUser_removes_iff reachable_withGroup nextDraw rfl rfl
      ⟨.object [(lit "user_id", .string [97])], rfl, rfl⟩).mpr (Or.inl ?_) hpos⟩
  decide

/-- The service after the user `a\0b` was created. -/
def nulUser : AnonymBE :=
  (processInput .sample .sample (initialised true)
    ⟨lit "POST", lit "/access/user", userBody "\"a\\u0000b\""⟩).2

/-- Deleting the user `a\0b` is answered ok, and the user is still there. -/
theorem deleteUser_keeps_nul_user :
    Reachable .sample nulUser ∧
      Env.sample.Field ⟨lit "DELETE", lit "/access/user", userBody "\"a\\u0000b\""⟩
        (lit "user_id") [97, 0, 98] ∧
      (processInput .sample .sample nulUser
        ⟨lit "DELETE", lit "/access/user", userBody "\"a\\u0000b\""⟩).1.Positive ∧
      ¬ nulUser.database.Removed (processInput .sample .sample nulUser
        ⟨lit "DELETE", lit "/access/user", userBody "\"a\\u0000b\""⟩).2.database
        [97, 0, 98] := by
  have hu : Env.sample.Field ⟨lit "DELETE", lit "/access/user", userBody "\"a\\u0000b\""⟩
      (lit "user_id") [97, 0, 98] :=
    ⟨.object [(lit "user_id", .string [97, 0, 98])], Env.sample_parse_nul, by decide⟩
  have he : endpoint ⟨lit "DELETE", lit "/access/user", userBody "\"a\\u0000b\""⟩ =
      some .deleteUser := by decide
  obtain ⟨hpos, hdb⟩ := processInput_deleteUser .sample nulUser he hu
  refine ⟨.step (.init true) .sample _, hu, hpos, fun h => h.unknown ?_⟩
  rw [hdb]
  decide +kernel

end AnonymBE

end ASky

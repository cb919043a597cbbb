import ASky.Formats
import ASky.Service.Refines

/-!
# Revocation, from the service to the client

A user who is removed from a group, or deleted, keeps the key the service once sent. These results
follow that key through the machine of `Access`, the service and the client.

* `envelope_opens`: the keys that open the answer to `/verifier/envelope` are those of the members
  of the group at that moment.
* **`removed_key_opens_nothing`**: after a removal that was answered ok, and whatever requests come
  next, the old key opens no envelope of the group, as long as its owner is not put back and nobody
  else is given the key. The members' keys do.
* **`deleted_key_opens_nothing`**: the same of a deleted user, for every group and whoever is put
  back.

The keys the client can meet are taken to be told apart by SHA-224 and by the tags of AES-GCM, as in
`Formats`.
-/

namespace ASky

open Client Lib
open Access (Policy Command Verdict Step Runs)

/-- The random bytes have the lengths the code asks for, and the keys are told apart. -/
structure Draw.Good (crypto : Crypto) (draw : Draw) (keys : Set Bytes) : Prop where
  nonce : draw.nonce.length = nonceBytes
  iv : ∀ i k, (draw.iv i k).length = cipherIvBytes
  hashes : HashInjOn crypto draw.nonce keys
  tags : crypto.Separates keys

/-- The answer is the envelope `text`. -/
def Response.IsEnvelope (crypto : Crypto) (r : Response) (text : Bytes) : Prop :=
  r.Reads 200 [(lit "result", lit "ok"), (lit "ciphertext", crypto.b64Encode text)]

/-- The answer is a refusal. -/
def Response.Refuses (r : Response) : Prop :=
  ∃ what, r.Reads 400 [(lit "result", lit "error"), (lit "detail", what)]

/-- An answer that conveys a refusal is one. -/
theorem Response.Conveys.refuses {crypto : Crypto} {indexed : Bool} {draw : Draw}
    {c : Command Bytes Bytes Bytes} {r : Response} {why : Access.Reason}
    (h : r.Conveys crypto indexed draw c (.refused why)) : r.Refuses := by
  obtain ⟨what, -, hreads⟩ := h
  exact ⟨cStr what, hreads⟩

/-- A code is read once. -/
theorem code_of_reads {r : Response} {code code' : Nat} {fields fields' : List (Bytes × Bytes)}
    (h : r.Reads code fields) (h' : r.Reads code' fields') : code = code' := by
  obtain ⟨msg, json, body, kvs, rfl, -, -⟩ := h
  obtain ⟨msg', json', body', kvs', heq, -, -⟩ := h'
  exact (Response.reply.inj heq).1

/-- The answer refuses, or is an envelope of `plain` that `key` does not open, and that the key of
every member of `g` opens. -/
def Response.LocksOut (crypto : Crypto) (s : AnonymBE) (g plain : Bytes) (key : Key)
    (r : Response) : Prop :=
  r.Refuses ∨ ∃ text, r.IsEnvelope crypto text ∧
    openEnvelope crypto s.indexed text key.val = .error .userKeyNotInEnvelope ∧
    ∀ u k, s.database.Member u g → s.database.users[u]? = some k →
      openEnvelope crypto s.indexed text k = .ok plain

namespace AnonymBE

/-- The keys there are: `key`, and those of the users. -/
def known (s : AnonymBE) (key : Key) : Set Bytes :=
  { b : Bytes | b = key.val ∨ ∃ u : Bytes, s.database.users[u]? = some b }

section

variable {crypto : Crypto} {order : ArgOrder} {s : AnonymBE}

/-- **Who opens the answer to `/verifier/envelope`**: the keys of the members, and no other. -/
theorem envelope_opens (hb : ∀ b, Ascii (crypto.b64Encode b)) (hc : crypto.Agrees)
    (hs : Reachable (Env.code crypto order) s) {draw : Draw} {request : Request} {g b : Bytes}
    (hcmd : request.Says (.envelope g b)) {keys : Set Bytes}
    (hkeys : ∀ (u k : Bytes), s.database.users[u]? = some k → k ∈ keys)
    (hgood : draw.Good crypto keys) :
    (processInput (Env.code crypto order) draw s request).1.Refuses ∨
      ∃ text, (processInput (Env.code crypto order) draw s request).1.IsEnvelope crypto text ∧
        (∃ u, s.database.policy.Member u g) ∧ ∀ key : Key, key.val ∈ keys →
          (key.val ∈ s.database.policy.openers g →
            openEnvelope crypto s.indexed text key.val = .ok (resize (crypto.b64Decode b) 32)) ∧
          (key.val ∉ s.database.policy.openers g →
            openEnvelope crypto s.indexed text key.val = .error .userKeyNotInEnvelope) := by
  obtain ⟨v, hstep, hconveys⟩ := @processInput_refines crypto order draw s request hb
    (integrity_of_reachable hs) (keysSized_of_reachable hs) _ hcmd
  generalize (processInput (Env.code crypto order) draw s request).2.database.policy = after
    at hstep
  cases hstep with
  | envelopeForNoGroup hg => exact .inl hconveys.refuses
  | envelopeForNobody hg => exact .inl hconveys.refuses
  | envelope hmember =>
    obtain ⟨ka, hka, hreads⟩ := hconveys
    refine .inr ⟨_, hreads, hmember, fun key hkey => ?_⟩
    have hmem : ∀ k ∈ ka, k.val ∈ keys := by
      intro k hk
      obtain ⟨u, -, hu⟩ := (hka k).mp hk
      exact hkeys u k.val hu
    have hopen := RoundTrip.open_envelopeText hc s.indexed hgood.nonce hgood.iv
      (length_resize (crypto.b64Decode b) 32) (fun _ => hgood.hashes) (fun _ => hgood.tags) hmem key
      hkey
    rw [hopen]
    constructor
    · intro hin
      rw [if_pos ((hka key).mpr hin)]
    · intro hout
      rw [if_neg (mt (hka key).mp hout)]

/-- A key outside is locked out. -/
theorem locksOut_of_not_mem (hb : ∀ b, Ascii (crypto.b64Encode b)) (hc : crypto.Agrees)
    (hs : Reachable (Env.code crypto order) s) {draw : Draw} {request : Request} {g b : Bytes}
    (hcmd : request.Says (.envelope g b)) {key : Key}
    (hgood : draw.Good crypto (s.known key)) (hout : key.val ∉ s.database.policy.openers g) :
    (processInput (Env.code crypto order) draw s request).1.LocksOut crypto s g
      (resize (crypto.b64Decode b) 32) key := by
  have hkeys : ∀ u k : Bytes, s.database.users[u]? = some k → k ∈ s.known key :=
    fun u k hu => .inr ⟨u, hu⟩
  rcases envelope_opens hb hc hs hcmd hkeys hgood with hno | ⟨text, ht, -, hopen⟩
  · exact .inl hno
  · refine .inr ⟨text, ht, (hopen key (.inl rfl)).2 hout, fun u k hm hu => ?_⟩
    have hsize := keysSized_of_reachable hs u k hu
    exact (hopen ⟨k, hsize⟩ (.inr ⟨u, hu⟩)).1 ⟨u, MemDatabase.member_policy.mpr hm, hu⟩

/-- A user who is out stays out through any requests, and the key is no one else's. -/
theorem not_opener_of_serve (hb : ∀ b, Ascii (crypto.b64Encode b))
    (hs : Reachable (Env.code crypto order) s) {u g : Bytes} {key : Key}
    (honly : Access.Only s.database.policy key.val u) (hout : ¬ s.database.policy.Member u g)
    {steps : List (Draw × Request)}
    (hissued : ∀ step ∈ steps, step.1.key = key → ∀ w, step.2.Says (.createUser w) → w = u)
    (hstay : ∀ step ∈ steps, ¬ step.2.Says (.addUser g u) ∧ ¬ step.2.Says (.createGroup g u)) :
    key.val ∉ (serve (Env.code crypto order) s steps).database.policy.openers g := by
  obtain ⟨log, vs, hruns, hlog⟩ := runs_of_serve hb order hs steps
  refine hruns.revoked honly hout ?_ ?_
  · intro e he hkey w hcreate
    obtain ⟨step, hmem, hk, hcmd⟩ := hlog e he
    rw [hcreate] at hcmd
    exact hissued step hmem (Subtype.ext (hk.symm.trans hkey)) w hcmd
  · intro e he
    obtain ⟨step, hmem, -, hcmd⟩ := hlog e he
    rintro (hadd | hcreate)
    · rw [hadd] at hcmd
      exact (hstay step hmem).1 hcmd
    · rw [hcreate] at hcmd
      exact (hstay step hmem).2 hcmd

/-- After a removal that was answered ok, the removed key opens nothing. -/
theorem not_opener_of_removal (hb : ∀ b, Ascii (crypto.b64Encode b))
    (hs : Reachable (Env.code crypto order) s) {u g : Bytes} {key : Key}
    (honly : Access.Only s.database.policy key.val u) {draw : Draw} {removal : Request}
    (hremoval : removal.Says (.removeUser g u))
    (hok : (processInput (Env.code crypto order) draw s removal).1.Reads 200
      [(lit "result", lit "ok")]) {steps : List (Draw × Request)}
    (hissued : ∀ step ∈ steps, step.1.key = key → ∀ w, step.2.Says (.createUser w) → w = u)
    (hstay : ∀ step ∈ steps, ¬ step.2.Says (.addUser g u) ∧ ¬ step.2.Says (.createGroup g u)) :
    key.val ∉
      (serve (Env.code crypto order) s ((draw, removal) :: steps)).database.policy.openers g := by
  obtain ⟨v, hstep, hconveys⟩ := @processInput_refines crypto order draw s removal hb
    (integrity_of_reachable hs) (keysSized_of_reachable hs) _ hremoval
  have hdone : v = .done := by
    generalize (processInput (Env.code crypto order) draw s removal).2.database.policy = after
      at hstep
    cases hstep with
    | removeUser hg hu hm => rfl
    | _ =>
      obtain ⟨what, -, hreads⟩ := hconveys
      exact absurd (code_of_reads hok hreads) (by decide)
  subst hdone
  have hnext := hstep.only honly fun _ w hcreate => by cases hcreate
  exact not_opener_of_serve hb (.step hs draw removal) hnext hstep.removed hissued hstay

theorem unused_of_serve (hb : ∀ b, Ascii (crypto.b64Encode b))
    (hs : Reachable (Env.code crypto order) s) {key : Key} (hun : s.database.policy.Unused key.val)
    {steps : List (Draw × Request)} (hfresh : ∀ step ∈ steps, step.1.key ≠ key) :
    (serve (Env.code crypto order) s steps).database.policy.Unused key.val := by
  obtain ⟨log, vs, hruns, hlog⟩ := runs_of_serve hb order hs steps
  refine hruns.retired hun ?_
  intro e he
  obtain ⟨step, hmem, hk, -⟩ := hlog e he
  rw [hk]
  exact fun heq => hfresh step hmem (Subtype.ext heq)

end

/-! ## A sample

`withGroup` has the users `a` and `b` with the keys `00..00` and `01..01`, both in the group `g`. -/

theorem users_withGroup : withGroup.database.users =
    ((∅ : Std.ExtTreeMap Bytes Bytes).insert [97] Crypto.key0.val).insert [98] Crypto.key1.val :=
  rfl

theorem key_withGroup (u : Bytes) : withGroup.database.users[u]? =
    if u = [98] then some Crypto.key1.val else if u = [97] then some Crypto.key0.val else none := by
  rw [users_withGroup, getElem?_insert, getElem?_insert, Std.ExtTreeMap.getElem?_empty]

theorem users_removed : (serve (Env.code .sample .rightFirst) withGroup [(nextDraw,
    ⟨lit "DELETE", lit "/access/usergroup", membershipBody "\"a\""⟩)]).database.users =
      withGroup.database.users := by
  rw [users_withGroup]
  rfl

/-- Only `a` has the key `00..00`. -/
theorem only_withGroup (v : Bytes) (h : withGroup.database.users[v]? = some Crypto.key0.val) :
    v = [97] := by
  rw [key_withGroup] at h
  by_cases hb : v = [98]
  · rw [if_pos hb] at h
    exact absurd (Option.some.inj h) (by decide)
  · rw [if_neg hb] at h
    by_cases ha : v = [97]
    · exact ha
    · rw [if_neg ha] at h
      cases h

theorem membershipBody_command :
    Request.Says ⟨lit "DELETE", lit "/access/usergroup", membershipBody "\"a\""⟩
      (.removeUser [103] [97]) :=
  ⟨rfl, rfl, carries_pair parse_membershipBody_a (by decide)⟩

theorem userBody_command :
    Request.Says ⟨lit "DELETE", lit "/access/user", userBody "\"a\""⟩ (.deleteUser [97]) :=
  ⟨rfl, rfl, [97], rfl, carries_single parse_userBody_a⟩

theorem removal_ok :
    (processInput (Env.code .sample .rightFirst) nextDraw withGroup
      ⟨lit "DELETE", lit "/access/usergroup", membershipBody "\"a\""⟩).1.Reads 200
      [(lit "result", lit "ok")] :=
  ⟨_, _, _, [(lit "result", .string (lit "ok"))], rfl, rfl, fun k => by
    rw [lookup_single, List.lookup_cons]
    by_cases hk : k = lit "result"
    · rw [if_pos hk, beq_iff_eq.mpr hk]
      rfl
    · rw [if_neg hk, beq_eq_false_iff_ne.mpr hk]
      rfl⟩

/-- The two keys are told apart. -/
theorem good_nextDraw {keys : Set Bytes} (h : keys ⊆ {Crypto.key0.val, Crypto.key1.val}) :
    nextDraw.Good .sample keys where
  nonce := rfl
  iv _ _ := rfl
  hashes := hashInjOn_sample.mono h
  tags k hk k' hk' := Crypto.sample_separates k (h hk) k' (h hk')

/-- **A removed user stays out.** In every reachable state, if only `u` has the key and the removal
of `u` from `g` is answered ok, then after any further requests the answer to a request for an
envelope of `g` locks the key out, as long as no request puts `u` back into `g` and the key is drawn
for nobody else. -/
theorem removed_key_opens_nothing {crypto : Crypto} (hb : ∀ b, Ascii (crypto.b64Encode b))
    (hc : crypto.Agrees) (order : ArgOrder) {s : AnonymBE}
    (hs : Reachable (Env.code crypto order) s) {u g : Bytes} {key : Key}
    (honly : ∀ v : Bytes, s.database.users[v]? = some key.val → v = u)
    (draw : Draw) (removal : Request) (hremoval : removal.Says (.removeUser g u))
    (hok : (processInput (Env.code crypto order) draw s removal).1.Reads 200
      [(lit "result", lit "ok")])
    (steps : List (Draw × Request))
    (hissued : ∀ step ∈ steps, step.1.key = key → ∀ w, step.2.Says (.createUser w) → w = u)
    (hstay : ∀ step ∈ steps, ¬ step.2.Says (.addUser g u) ∧ ¬ step.2.Says (.createGroup g u))
    (draw' : Draw) (request : Request) (b : Bytes) (henvelope : request.Says (.envelope g b))
    (hgood : draw'.Good crypto
      ((serve (Env.code crypto order) s ((draw, removal) :: steps)).known key)) :
    (processInput (Env.code crypto order) draw'
      (serve (Env.code crypto order) s ((draw, removal) :: steps)) request).1.LocksOut crypto
      (serve (Env.code crypto order) s ((draw, removal) :: steps)) g
      (resize (crypto.b64Decode b) 32) key := by
  have hout := not_opener_of_removal hb hs honly hremoval hok hissued hstay
  exact locksOut_of_not_mem hb hc (reachable_serve hs _) henvelope hgood hout

/-- The theorem for `a`, who is removed from `g`; `b` stays. -/
theorem removed_key_sample :
    (processInput (Env.code .sample .rightFirst) nextDraw
      (serve (Env.code .sample .rightFirst) withGroup
        [(nextDraw, ⟨lit "DELETE", lit "/access/usergroup", membershipBody "\"a\""⟩)])
      ⟨lit "POST", lit "/verifier/envelope", envelopeBody⟩).1.LocksOut .sample
      (serve (Env.code .sample .rightFirst) withGroup
        [(nextDraw, ⟨lit "DELETE", lit "/access/usergroup", membershipBody "\"a\""⟩)]) [103]
      (resize (Crypto.sample.b64Decode []) 32) Crypto.key0 := by
  refine removed_key_opens_nothing Crypto.sample_b64_ascii Crypto.sample_agrees .rightFirst
    reachable_withGroup only_withGroup nextDraw _ membershipBody_command removal_ok [] (by simp)
    (by simp) nextDraw _ [] envelopeBody_command (good_nextDraw ?_)
  rintro k (rfl | ⟨u, hu⟩)
  · exact Or.inl rfl
  · rw [users_removed, key_withGroup] at hu
    split_ifs at hu with hb ha
    · exact Or.inr (Option.some.inj hu).symm
    · exact Or.inl (Option.some.inj hu).symm

/-- **A deleted user's key opens nothing.** In every reachable state, if only `u` has the key and
`u` is deleted, then after any further requests the answer to a request for an envelope of any group
locks the key out, as long as the key is not drawn again. -/
theorem deleted_key_opens_nothing {crypto : Crypto} (hb : ∀ b, Ascii (crypto.b64Encode b))
    (hc : crypto.Agrees) (order : ArgOrder) {s : AnonymBE}
    (hs : Reachable (Env.code crypto order) s) {u : Bytes} {key : Key}
    (honly : ∀ v : Bytes, s.database.users[v]? = some key.val → v = u)
    (draw : Draw) (deletion : Request) (hdeletion : deletion.Says (.deleteUser u))
    (steps : List (Draw × Request)) (hfresh : ∀ step ∈ steps, step.1.key ≠ key)
    (draw' : Draw) (request : Request) (g b : Bytes) (henvelope : request.Says (.envelope g b))
    (hgood : draw'.Good crypto
      ((serve (Env.code crypto order) s ((draw, deletion) :: steps)).known key)) :
    (processInput (Env.code crypto order) draw'
      (serve (Env.code crypto order) s ((draw, deletion) :: steps)) request).1.LocksOut crypto
      (serve (Env.code crypto order) s ((draw, deletion) :: steps)) g
      (resize (crypto.b64Decode b) 32) key := by
  obtain ⟨v, hstep, -⟩ := @processInput_refines crypto order draw s deletion hb
    (integrity_of_reachable hs) (keysSized_of_reachable hs) _ hdeletion
  have honly' : Access.Only s.database.policy key.val u := honly
  have hun := unused_of_serve hb (.step hs draw deletion) (hstep.deleted honly') hfresh
  exact locksOut_of_not_mem hb hc (reachable_serve hs _) henvelope hgood (hun.not_mem_openers g)

/-- The theorem for `a`, who is deleted. -/
theorem deleted_key_sample :
    (processInput (Env.code .sample .rightFirst) nextDraw
      (serve (Env.code .sample .rightFirst) withGroup
        [(nextDraw, ⟨lit "DELETE", lit "/access/user", userBody "\"a\""⟩)])
      ⟨lit "POST", lit "/verifier/envelope", envelopeBody⟩).1.LocksOut .sample
      (serve (Env.code .sample .rightFirst) withGroup
        [(nextDraw, ⟨lit "DELETE", lit "/access/user", userBody "\"a\""⟩)]) [103]
      (resize (Crypto.sample.b64Decode []) 32) Crypto.key0 := by
  refine deleted_key_opens_nothing Crypto.sample_b64_ascii Crypto.sample_agrees .rightFirst
    reachable_withGroup only_withGroup nextDraw _ userBody_command [] (by simp) nextDraw _ [103] []
    envelopeBody_command (good_nextDraw ?_)
  rintro k (rfl | ⟨u, hu⟩)
  · exact Or.inl rfl
  · have hu' : (withGroup.database.users.erase [97])[u]? = some k := hu
    rw [getElem?_erase, key_withGroup] at hu'
    split_ifs at hu' with ha hb
    · exact Or.inr (Option.some.inj hu').symm

end AnonymBE

end ASky

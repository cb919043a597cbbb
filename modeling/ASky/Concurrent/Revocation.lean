import ASky.Concurrent.Requests
import ASky.Revocation

/-!
# Revocation under several threads

A removal and a request for an envelope are served by different threads, and other requests run
beside them. What counts for the one who removes a user is the answer: when the removal has been
answered, an envelope that is asked for afterwards must not open for the user.

* `served_at`: what a request was answered, in the order of `linearizable_of_undisturbed`.
* **`removed_key_denied`**: an envelope of the group that is asked for after a removal has been
  answered ok is not opened by the key of the removed user, whatever runs beside them, as long as
  whoever put the user into the group was answered before the removal began.
* **`deleted_key_denied`**: the same of a deleted user, for every group.
-/

namespace ASky

open Client Lib

/-- The answer refuses, or is an envelope that `key` does not open. -/
def Response.Denies (crypto : Crypto) (indexed : Bool) (key : Key) (r : Response) : Prop :=
  r.Refuses ∨ ∃ text, r.IsEnvelope crypto text ∧
    openEnvelope crypto indexed text key.val = .error .userKeyNotInEnvelope

namespace Concurrent

open AnonymBE (answers serve initialised membershipBody nextDraw)

/-- A request that was answered. -/
abbrev Answered := Call Nat MemDatabase (Draw × Request) Response

/-- The service after these requests, in this order. -/
def after (env : Env) (indexed : Bool) (l : List Answered) : AnonymBE :=
  serve env (initialised indexed) (l.map Call.op)

/-- The keys there are: `key`, and those that were drawn. -/
def drawn (s : Service) (key : Key) : Set Bytes :=
  {b : Bytes | b = key.val ∨ ∃ c ∈ s.calls, c.op.1.key.val = b}

section

variable {env : Env} {crypto : Crypto} {order : ArgOrder} {indexed : Bool} {s : Service}
  {l : List Answered}

/-! ## The state a request meets -/

theorem serve_append (a : AnonymBE) (steps steps' : List (Draw × Request)) :
    serve env a (steps ++ steps') = serve env (serve env a steps) steps' := by
  induction steps generalizing a with
  | nil => rfl
  | cons step steps ih => exact ih _

theorem indexed_serve (a : AnonymBE) (steps : List (Draw × Request)) :
    (serve env a steps).indexed = a.indexed := by
  induction steps generalizing a with
  | nil => rfl
  | cons step steps ih => exact ih _

theorem after_append (l l' : List Answered) :
    after env indexed (l ++ l') = serve env (after env indexed l) (l'.map Call.op) := by
  unfold after
  rw [List.map_append, serve_append]

theorem reachable_after : AnonymBE.Reachable env (after env indexed l) :=
  AnonymBE.reachable_serve (.init indexed) _

/-- The answer to a request is that of the service in the state the earlier ones leave. -/
theorem result_of_answers {a : AnonymBE} {l₁ l₂ : List Answered} {c : Answered}
    (h : answers env a ((l₁ ++ c :: l₂).map Call.op) = (l₁ ++ c :: l₂).map Call.result) :
    c.result = (AnonymBE.processInput env c.op.1 (serve env a (l₁.map Call.op)) c.op.2).1 := by
  induction l₁ generalizing a with
  | nil => exact (List.cons.inj h).1.symm
  | cons c' l₁ ih => exact ih (List.cons.inj h).2

/-- **A request that begins after another was answered comes after it.** The requests before the
first, between the two and after the second, in an order in which the service gives the answers. -/
theorem served_at (h : Reach (service env indexed) Undisturbed {} s)
    (hidle : ∀ t, s.thread t = none) {c c' : Answered} (hc : c ∈ s.calls) (hc' : c' ∈ s.calls)
    (hne : c' ≠ c) (hlater : c.stop < c'.start) :
    ∃ l₁ l₂ l₃ : List Answered, (l₁ ++ c :: (l₂ ++ c' :: l₃)).Perm s.calls ∧
      (∀ d ∈ l₂, ¬ d.stop < c.start) ∧
      c.result = (AnonymBE.processInput env c.op.1 (after env indexed l₁) c.op.2).1 ∧
      c'.result =
        (AnonymBE.processInput env c'.op.1 (after env indexed (l₁ ++ c :: l₂)) c'.op.2).1 := by
  obtain ⟨l, hperm, hrealtime, hreplays⟩ := linearizable_of_undisturbed h hidle
  obtain ⟨hanswers, -⟩ := answers_of_replays (s := initialised indexed) hreplays
  rw [List.map_map] at hanswers
  rw [List.map_map] at hanswers
  obtain ⟨l₁, l', rfl⟩ := List.append_of_mem (hperm.mem_iff.mpr hc)
  obtain ⟨-, hpair, hcross⟩ := List.pairwise_append.mp hrealtime
  have hin : c' ∈ l' := by
    rcases List.mem_append.mp (hperm.mem_iff.mpr hc') with hbefore | hafter
    · exact absurd hlater (hcross c' hbefore c List.mem_cons_self)
    · exact (List.mem_cons.mp hafter).resolve_left hne
  obtain ⟨l₂, l₃, rfl⟩ := List.append_of_mem hin
  have hsplit : l₁ ++ c :: (l₂ ++ c' :: l₃) = (l₁ ++ c :: l₂) ++ c' :: l₃ := by
    rw [List.append_assoc, List.cons_append]
  refine ⟨l₁, l₂, l₃, hperm, fun d hd => ?_, result_of_answers hanswers, ?_⟩
  · exact (List.pairwise_cons.mp hpair).1 d (List.mem_append_left _ hd)
  · rw [hsplit] at hanswers
    exact result_of_answers hanswers

/-- The requests up to the second are among those of the run. -/
theorem mem_calls_of_perm {l₁ l₂ l₃ : List Answered} {c c' : Answered}
    (hperm : (l₁ ++ c :: (l₂ ++ c' :: l₃)).Perm s.calls) : ∀ d ∈ l₁ ++ c :: l₂, d ∈ s.calls := by
  intro d hd
  refine hperm.mem_iff.mp ?_
  rw [← List.cons_append, ← List.append_assoc]
  exact List.mem_append_left _ hd

/-! ## The keys of the users -/

theorem policy_initialised : (initialised indexed).database.policy = .empty :=
  MemDatabase.policy_empty

/-- The users have keys that were drawn. -/
theorem drawn_of_users (hb : ∀ b, Ascii (crypto.b64Encode b)) (hl : ∀ c ∈ l, c ∈ s.calls)
    {key : Key} (u k : Bytes)
    (hu : (after (Env.code crypto order) indexed l).database.users[u]? = some k) :
    k ∈ drawn s key := by
  have hsize := AnonymBE.keysSized_of_reachable reachable_after u k hu
  have hempty : (initialised indexed).database.policy.Unused k := by
    intro v hv
    rw [policy_initialised] at hv
    cases hv
  by_contra hno
  refine @AnonymBE.unused_of_serve crypto order (initialised indexed) hb (.init indexed) ⟨k, hsize⟩
    hempty (l.map Call.op) (fun step hstep hk => hno ?_) u hu
  obtain ⟨c, hc, rfl⟩ := List.mem_map.mp hstep
  exact .inr ⟨c, hl c hc, congrArg Subtype.val hk⟩

/-- Only `u` has the key, if it was drawn for `u` only. -/
theorem only_after (hb : ∀ b, Ascii (crypto.b64Encode b)) {u : Bytes} {key : Key}
    (hissued : ∀ c ∈ l, c.op.1.key = key → ∀ w, c.op.2.Says (.createUser w) → w = u) :
    Access.Only (after (Env.code crypto order) indexed l).database.policy key.val u := by
  obtain ⟨log, vs, hruns, hlog⟩ :=
    @AnonymBE.runs_of_serve crypto hb order (initialised indexed) (.init indexed) (l.map Call.op)
  refine hruns.only (fun v hv => ?_) fun e he hkey w hcreate => ?_
  · rw [policy_initialised] at hv
    cases hv
  · obtain ⟨step, hmem, hk, hcmd⟩ := hlog e he
    obtain ⟨c, hc, rfl⟩ := List.mem_map.mp hmem
    rw [hcreate] at hcmd
    exact hissued c hc (Subtype.ext (hk.symm.trans hkey)) w hcmd

/-- A key that opens nothing of the group is denied. -/
theorem denied_of_not_mem (hb : ∀ b, Ascii (crypto.b64Encode b)) (hc : crypto.Agrees)
    (hl : ∀ c ∈ l, c ∈ s.calls) {key : Key} {draw : Draw} {request : Request} {g b : Bytes}
    (hcmd : request.Says (.envelope g b)) (hgood : draw.Good crypto (drawn s key))
    (hout : key.val ∉ (after (Env.code crypto order) indexed l).database.policy.openers g) :
    (AnonymBE.processInput (Env.code crypto order) draw (after (Env.code crypto order) indexed l)
      request).1.Denies crypto indexed key := by
  rcases AnonymBE.envelope_opens hb hc reachable_after hcmd (drawn_of_users hb hl) hgood with
    hno | ⟨text, ht, -, hopen⟩
  · exact .inl hno
  · have hclosed := (hopen key (.inl rfl)).2 hout
    have hindexed : (after (Env.code crypto order) indexed l).indexed = indexed :=
      indexed_serve _ _
    rw [hindexed] at hclosed
    exact .inr ⟨text, ht, hclosed⟩

end

/-! ## A run of three threads

Thread 0 creates `a` and `b` and puts them into `g`. It then removes `a` from `g` and deletes `a`.
Thread 2 serves a request for an envelope after each of the two, while thread 1 serves a ping. -/

/-- Thread `t` is sent a request and makes `n` steps. -/
def sends (t : Nat) (draw : Draw) (request : Request) (n : Nat) :
    List (Nat × Option (Draw × Request)) :=
  (t, some (draw, request)) :: List.replicate n (t, none)

/-- The request for an envelope of `g`. -/
def envelopeG : Request := ⟨lit "POST", lit "/verifier/envelope", AnonymBE.envelopeBody⟩

def revoking : List (Nat × Option (Draw × Request)) :=
  sends 0 Draw.sample createA 7 ++
    sends 0 nextDraw ⟨lit "POST", lit "/access/user", userBody "\"b\""⟩ 7 ++
    sends 0 nextDraw ⟨lit "POST", lit "/access/group", membershipBody "\"a\""⟩ 11 ++
    sends 0 nextDraw ⟨lit "PUT", lit "/access/usergroup", membershipBody "\"b\""⟩ 11 ++
    sends 1 nextDraw ⟨lit "GET", lit "/ping", []⟩ 0 ++
    sends 0 nextDraw ⟨lit "DELETE", lit "/access/usergroup", membershipBody "\"a\""⟩ 14 ++
    sends 2 nextDraw envelopeG 15 ++
    sends 0 nextDraw ⟨lit "DELETE", lit "/access/user", userBody "\"a\""⟩ 10 ++
    sends 2 nextDraw envelopeG 15 ++ List.replicate 2 (1, none)

/-- The service after this run. -/
def revoked : Service := scheduled (service (Env.code .sample .rightFirst) true) {} revoking

/-- All nine requests are answered. -/
theorem length_revoked : revoked.calls.length = 9 := by decide +kernel

/-- The `i`-th answer. -/
def nth (i : Fin 9) : Answered := revoked.calls.get (i.cast length_revoked.symm)

theorem nth_mem (i : Fin 9) : nth i ∈ revoked.calls := List.get_mem _ _

theorem reach_revoked :
    Reach (service (Env.code .sample .rightFirst) true) Undisturbed {} revoked := by
  refine reach_of_no_query fun e he step hstep => ?_
  have hno : ∀ step ∈ revoking.filterMap Prod.snd, endpoint step.2 ≠ some .belongs := by
    decide +kernel
  exact hno step (List.mem_filterMap.mpr ⟨e, he, hstep⟩)

theorem idle_revoked (t : Nat) : revoked.thread t = none := by
  by_cases ht : t = 0 ∨ t = 1 ∨ t = 2
  · rcases ht with rfl | rfl | rfl
    · exact Option.isNone_iff_eq_none.mp (by decide +kernel)
    · exact Option.isNone_iff_eq_none.mp (by decide +kernel)
    · exact Option.isNone_iff_eq_none.mp (by decide +kernel)
  · have hthree : ∀ e ∈ revoking, e.1 = 0 ∨ e.1 = 1 ∨ e.1 = 2 := by decide +kernel
    refine scheduled_idle fun e he => ?_
    have := hthree e he
    omega

/-- The key `00..00` was drawn once, for `a`. -/
theorem drawn_once : ∀ c ∈ revoked.calls, c.op.1.key = Crypto.key0 →
    c.stop = 1 ∧ c.op.2.body = userBody "\"a\"" := by decide +kernel

theorem user_of_body {request : Request} (hbody : request.body = userBody "\"a\"") {w : Bytes}
    (h : request.Says (.createUser w)) : w = [97] := by
  obtain ⟨j, hj, hfields⟩ := h.2.2.parse
  rw [hbody, show jsonParse (userBody "\"a\"") =
    .ok (.object [(lit "user_id", .string [97])]) from rfl] at hj
  have hw := hfields (lit "user_id", w) List.mem_cons_self
  rw [← Except.ok.inj hj] at hw
  exact (Except.ok.inj hw).symm

theorem good_drawn : nextDraw.Good .sample (drawn revoked Crypto.key0) := by
  have hkeys : ∀ c ∈ revoked.calls, c.op.1.key.val = Crypto.key0.val ∨
      c.op.1.key.val = Crypto.key1.val := by decide +kernel
  refine AnonymBE.good_nextDraw ?_
  rintro k (rfl | ⟨c, hc, rfl⟩)
  · exact .inl rfl
  · exact hkeys c hc

/-! ## The results -/

/-- **A removed user's key is denied, whatever runs beside.** In every run in which no membership
query is disturbed: if the removal of `u` from `g` was answered ok before an envelope of `g` is
asked for, the key of `u` does not open the answer, as long as the key is drawn for nobody else and
every request that lets `u` into `g` was answered before the removal began. -/
theorem removed_key_denied {crypto : Crypto} (hb : ∀ b, Ascii (crypto.b64Encode b))
    (hc : crypto.Agrees) (order : ArgOrder) {indexed : Bool} {s : Service}
    (h : Reach (service (Env.code crypto order) indexed) Undisturbed {} s)
    (hidle : ∀ t, s.thread t = none) {u g b : Bytes} {key : Key}
    (hissued : ∀ c ∈ s.calls, c.op.1.key = key → ∀ w, c.op.2.Says (.createUser w) → w = u)
    {removal request : Answered} (hmem : removal ∈ s.calls)
    (hremoval : removal.op.2.Says (.removeUser g u))
    (hok : removal.result.Reads 200 [(lit "result", lit "ok")])
    (hstay : ∀ c ∈ s.calls, c.op.2.Says (.addUser g u) ∨ c.op.2.Says (.createGroup g u) →
      c.stop < removal.start)
    (hmem' : request ∈ s.calls) (henvelope : request.op.2.Says (.envelope g b))
    (hlater : removal.stop < request.start)
    (hgood : request.op.1.Good crypto (drawn s key)) :
    request.result.Denies crypto indexed key := by
  have hne : request ≠ removal := by
    rintro rfl
    exact absurd (henvelope.1.symm.trans hremoval.1) (by decide)
  obtain ⟨l₁, l₂, l₃, hperm, hafter, hresult, hresult'⟩ :=
    served_at h hidle hmem hmem' hne hlater
  have hin := mem_calls_of_perm hperm
  rw [hresult']
  rw [hresult] at hok
  refine denied_of_not_mem hb hc hin henvelope hgood ?_
  rw [after_append]
  refine AnonymBE.not_opener_of_removal hb reachable_after (only_after hb fun c hc => ?_) hremoval
    hok ?_ ?_
  · exact hissued c (hin c (List.mem_append_left _ hc))
  · intro step hstep
    obtain ⟨c, hc, rfl⟩ := List.mem_map.mp hstep
    exact hissued c (hin c (List.mem_append_right _ (List.mem_cons_of_mem _ hc)))
  · intro step hstep
    obtain ⟨c, hc, rfl⟩ := List.mem_map.mp hstep
    have hc' := hin c (List.mem_append_right _ (List.mem_cons_of_mem _ hc))
    constructor
    · exact fun hadd => hafter c hc (hstay c hc' (.inl hadd))
    · exact fun hcreate => hafter c hc (hstay c hc' (.inr hcreate))

/-- The theorem for the first envelope of the run. -/
theorem removed_key_denied_sample : (nth 5).op.2 = envelopeG ∧
    (nth 5).result.Denies .sample true Crypto.key0 := by
  have hadmitted : ∀ c ∈ revoked.calls, c.op.2.method = lit "PUT" ∨
      c.op.2.encodedPath = lit "/access/group" → c.stop < (nth 4).start := by decide +kernel
  refine ⟨rfl, removed_key_denied (u := [97]) (g := [103]) (b := []) Crypto.sample_b64_ascii
    Crypto.sample_agrees .rightFirst reach_revoked idle_revoked ?_ (nth_mem 4)
    AnonymBE.membershipBody_command ?_ ?_ (nth_mem 5) AnonymBE.envelopeBody_command
    (by decide +kernel) good_drawn⟩
  · intro c hc hkey w hcreate
    exact user_of_body (drawn_once c hc hkey).2 hcreate
  · exact AnonymBE.removal_ok
  · rintro c hc (hadd | hcreate)
    · exact hadmitted c hc (.inl hadd.1)
    · exact hadmitted c hc (.inr hcreate.2.1)

/-- **A deleted user's key is denied, whatever runs beside.** In every run in which no membership
query is disturbed: if the deletion of `u` was answered before an envelope of any group is asked
for, the key of `u` does not open the answer, as long as every request with which the key was drawn
was answered before the deletion began, and was for `u`. -/
theorem deleted_key_denied {crypto : Crypto} (hb : ∀ b, Ascii (crypto.b64Encode b))
    (hc : crypto.Agrees) (order : ArgOrder) {indexed : Bool} {s : Service}
    (h : Reach (service (Env.code crypto order) indexed) Undisturbed {} s)
    (hidle : ∀ t, s.thread t = none) {u g b : Bytes} {key : Key}
    {deletion request : Answered} (hmem : deletion ∈ s.calls)
    (hdeletion : deletion.op.2.Says (.deleteUser u))
    (hissued : ∀ c ∈ s.calls, c.op.1.key = key → c.stop < deletion.start ∧
      ∀ w, c.op.2.Says (.createUser w) → w = u)
    (hmem' : request ∈ s.calls) (henvelope : request.op.2.Says (.envelope g b))
    (hlater : deletion.stop < request.start)
    (hgood : request.op.1.Good crypto (drawn s key)) :
    request.result.Denies crypto indexed key := by
  have hne : request ≠ deletion := by
    rintro rfl
    exact absurd (henvelope.1.symm.trans hdeletion.1) (by decide)
  obtain ⟨l₁, l₂, l₃, hperm, hafter, -, hresult⟩ := served_at h hidle hmem hmem' hne hlater
  have hin := mem_calls_of_perm hperm
  have honly : Access.Only (after (Env.code crypto order) indexed l₁).database.policy key.val u :=
    only_after hb fun c hc hkey => (hissued c (hin c (List.mem_append_left _ hc)) hkey).2
  obtain ⟨v, hstep, -⟩ := @AnonymBE.processInput_refines crypto order deletion.op.1
    (after (Env.code crypto order) indexed l₁) deletion.op.2 hb
    (AnonymBE.integrity_of_reachable reachable_after)
    (AnonymBE.keysSized_of_reachable reachable_after) _ hdeletion
  rw [hresult]
  refine denied_of_not_mem hb hc hin henvelope hgood ?_
  rw [after_append]
  refine (AnonymBE.unused_of_serve hb (.step reachable_after deletion.op.1 deletion.op.2)
    (hstep.deleted honly) ?_).not_mem_openers g
  intro step hstep hkey
  obtain ⟨c, hc, rfl⟩ := List.mem_map.mp hstep
  have hc' := hin c (List.mem_append_right _ (List.mem_cons_of_mem _ hc))
  exact hafter c hc (hissued c hc' hkey).1

/-- The theorem for the second envelope of the run. -/
theorem deleted_key_denied_sample : (nth 7).op.2 = envelopeG ∧
    (nth 7).result.Denies .sample true Crypto.key0 := by
  refine ⟨rfl, deleted_key_denied (u := [97]) (g := [103]) (b := []) Crypto.sample_b64_ascii
    Crypto.sample_agrees .rightFirst reach_revoked idle_revoked (nth_mem 6)
    AnonymBE.userBody_command ?_ (nth_mem 7) AnonymBE.envelopeBody_command (by decide +kernel)
    good_drawn⟩
  intro c hc hkey
  obtain ⟨hstop, hbody⟩ := drawn_once c hc hkey
  constructor
  · rw [hstop]
    decide +kernel
  · exact fun w hcreate => user_of_body hbody hcreate

end Concurrent

end ASky

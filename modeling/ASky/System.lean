import ASky.Revocation
import ASky.Upload
import ASky.Vault

/-!
# The whole system

Clients, the access-control service and an untrusted store. A client asks the service for an
envelope of a fresh symmetric key (`generateSymmetricKeyAndGetEnvelope`), stores files encrypted
under that key with the envelope in front (`uploadToCloud`), and any client with a user key tries to
read them (`retrieveFromCloud`). In between, anybody sends the service any requests.

* Retrofit, Moshi and `java.util.Base64` are in `Http`: how a body is read, and Base64.
  `Http.Agrees` is what the client relies on.
* `Storage.Lawful`: an object that was stored is there until it is overwritten or deleted. Nothing
  is assumed about who can see it.
* `Step` is one step of the system. `keys` are the user keys that can ever be met; they are told
  apart by the hash and by the tags, for every nonce that is drawn (`Draw.Good`).
* **`system_refines`**: every run of the system is a run of the vault of `Vault`, event by event
  (`Traced`; a request that says nothing is the one kind of event the vault does not see), and what
  the holder of a key gets from `retrieveFromCloud` is what the vault lets the key read.
* **`readers_fixed_at_issue`**: so the readers of a file are the members of the group when its
  envelope was issued, whatever happens to the users and groups afterwards.
-/

namespace ASky.System

open Client Lib
open Access (Policy Command Verdict Vault)
open Access.Vault (Act)
open AnonymBE (membershipBody nextDraw)

/-- `StorageApi`, with `deleteObject`. -/
structure Storage (σ : Type) extends StorageApi σ where
  deleteObject : σ → (bucketName objectName : Bytes) → Except CloudError σ

/-- The object, if there is one. -/
def Storage.found {σ : Type} (api : Storage σ) (s : σ) (bucketName objectName : Bytes) :
    Option Bytes :=
  (api.getObject s bucketName objectName).toOption

/-- The store keeps what it took. -/
structure Storage.Lawful {σ : Type} (api : Storage σ) : Prop where
  create : ∀ {s s' b}, api.createBucketIfNotExists s b = .ok s' →
    ∀ b' o', api.found s' b' o' = api.found s b' o'
  store : ∀ {s s' b o content}, api.storeObject s b o content = .ok s' →
    ∀ b' o', api.found s' b' o' = if b' = b ∧ o' = o then some content else api.found s b' o'
  delete : ∀ {s s' b o}, api.deleteObject s b o = .ok s' →
    ∀ b' o', api.found s' b' o' = if b' = b ∧ o' = o then none else api.found s b' o'

/-- The client's side of HTTP: a string field of a JSON body, and Base64. -/
structure Http where
  field : (body key : Bytes) → Option Bytes
  encode : Bytes → Bytes
  decode : Bytes → Option Bytes

/-- The client reads what the service wrote, which is always the dump of an object, and the service
what the client wrote. -/
structure Http.Agrees (http : Http) (crypto : Crypto) : Prop where
  field : ∀ {json : KVString} {body key v}, dump2 json = .ok body → json[key]? = some v →
    http.field body key = some v
  encode : ∀ b, crypto.b64Decode (http.encode b) = b
  decode : ∀ b, http.decode (crypto.b64Encode b) = some b

/-- The answer of the service to `getEnvelope`, as `generateSymmetricKeyAndGetEnvelope` takes it:
`throwExceptionIfNotReallySuccessful`, then the Base64 of `ciphertext`. -/
def Http.envelope (http : Http) : Response → Option Bytes
  | .empty => none
  | .reply code _ _ body =>
    if 200 ≤ code ∧ code < 300 ∧ http.field body (lit "result") = some (lit "ok") then
      (http.field body (lit "ciphertext")).bind http.decode
    else none

/-- The service, the store, and the symmetric keys and envelopes that clients hold. -/
structure Sys (σ : Type) where
  service : AnonymBE
  cloud : σ
  held : List (Key × Bytes)

/-- What happens. -/
inductive Event where
  | request (draw : Draw) (request : Request)
  | getEnvelope (draw : Draw) (request : Request) (key : Key) (group : Bytes)
  | upload (i : ℕ) (iv data group filename : Bytes)
  | delete (group filename : Bytes)

/-- What the system is made of. -/
structure Parts (σ : Type) where
  crypto : Crypto
  order : ArgOrder
  gcmSeal : GcmSeal
  api : Storage σ
  http : Http
  keys : Set Bytes

/-- What the parts are assumed to do. -/
structure Parts.Sound {σ : Type} (parts : Parts σ) : Prop where
  ascii : ∀ b, Ascii (parts.crypto.b64Encode b)
  agrees : parts.crypto.Agrees
  cipher : RoundTrip.SealAgrees parts.crypto parts.gcmSeal
  storage : parts.api.Lawful
  http : parts.http.Agrees parts.crypto

/-- One step of the system. -/
inductive Step {σ : Type} (parts : Parts σ) (s : Sys σ) : Event → Sys σ → Prop where
  | request (draw : Draw) (request : Request) (hk : draw.key.val ∈ parts.keys) :
      Step parts s (.request draw request)
        { s with service := (AnonymBE.processInput (Env.code parts.crypto parts.order) draw
                  s.service request).2 }
  | getEnvelope (draw : Draw) (request : Request) (key : Key) (group envelope : Bytes)
      (hk : draw.key.val ∈ parts.keys) (hgood : draw.Good parts.crypto parts.keys)
      (hcmd : request.Says (.envelope group (parts.http.encode key.val)))
      (hanswer : parts.http.envelope (AnonymBE.processInput (Env.code parts.crypto parts.order) draw
        s.service request).1 = some envelope) :
      Step parts s (.getEnvelope draw request key group)
        { s with service := (AnonymBE.processInput (Env.code parts.crypto parts.order) draw
                  s.service request).2
                 held := s.held ++ [(key, envelope)] }
  | upload (i : ℕ) (iv data group filename : Bytes) (key : Key) (envelope : Bytes) (cloud : σ)
      (hi : s.held[i]? = some (key, envelope)) (hiv : iv.length = cipherIvBytes)
      (hfit : 4 + envelope.length + data.length + 28 ≤ intMax)
      (hup : uploadToCloud parts.gcmSeal parts.api.toStorageApi iv s.cloud data envelope key.val
        group filename = .ok cloud) :
      Step parts s (.upload i iv data group filename) { s with cloud := cloud }
  | delete (group filename : Bytes) (cloud : σ)
      (hdel : parts.api.deleteObject s.cloud group filename = .ok cloud) :
      Step parts s (.delete group filename) { s with cloud := cloud }

/-- A sequence of steps. -/
inductive Runs {σ : Type} (parts : Parts σ) : Sys σ → List Event → Sys σ → Prop where
  | nil {s : Sys σ} : Runs parts s [] s
  | cons {s s' s'' : Sys σ} {e : Event} {events : List Event} (hs : Step parts s e s')
      (h : Runs parts s' events s'') : Runs parts s (e :: events) s''

/-! ## The vault of a state -/

/-- The envelope opens for the readers, and for nobody else. -/
def OpensFor {σ : Type} (parts : Parts σ) (indexed : Bool) (key : Key) (envelope : Bytes)
    (readers : Set Bytes) : Prop :=
  ∀ k : Key, k.val ∈ parts.keys →
    (k.val ∈ readers → openEnvelope parts.crypto indexed envelope k.val = .ok key.val) ∧
    (k.val ∉ readers →
      openEnvelope parts.crypto indexed envelope k.val = .error .userKeyNotInEnvelope)

/-- The object holds the file for the readers, and for nobody else. -/
def Holds {σ : Type} (parts : Parts σ) (indexed : Bool) (object data : Bytes)
    (readers : Set Bytes) : Prop :=
  ∀ k : Key, k.val ∈ parts.keys →
    (k.val ∈ readers → decodeObject parts.crypto indexed k.val object = .ok data) ∧
    (k.val ∉ readers →
      decodeObject parts.crypto indexed k.val object = .error (.kt .userKeyNotInEnvelope))

/-- What the store has for a file of the vault. -/
def Stored {σ : Type} (parts : Parts σ) (indexed : Bool) (found : Option Bytes) :
    Option (Bytes × Set Bytes) → Prop
  | none => found = none
  | some (data, readers) => ∃ object, found = some object ∧ Holds parts indexed object data readers

/-- The state and the vault it stands for. -/
structure Rel {σ : Type} (parts : Parts σ) (s : Sys σ)
    (v : Vault Bytes Bytes Bytes (Bytes × Bytes) Bytes) : Prop where
  reachable : AnonymBE.Reachable (Env.code parts.crypto parts.order) s.service
  keys : ∀ u k : Bytes, s.service.database.users[u]? = some k → k ∈ parts.keys
  policy : v.policy = s.service.database.policy
  tickets : List.Forall₂ (fun h readers => OpensFor parts s.service.indexed h.1 h.2 readers)
    s.held v.tickets
  files : ∀ group filename, Stored parts s.service.indexed
    (parts.api.found s.cloud group filename) (v.files (group, filename))

section

variable {σ : Type} {parts : Parts σ} {s s' : Sys σ}
  {v : Vault Bytes Bytes Bytes (Bytes × Bytes) Bytes}

/-- What a file of the vault is to the client. -/
theorem decodeObject_of_open (hp : parts.Sound) {indexed : Bool} {iv data envelope stored : Bytes}
    {key : Key} {readers : Set Bytes} (hiv : iv.length = cipherIvBytes)
    (hfit : 4 + envelope.length + data.length + 28 ≤ intMax)
    (hstored : encryptAndEncodeFile parts.gcmSeal iv data envelope key.val = .ok stored)
    (hopen : OpensFor parts indexed key envelope readers) :
    Holds parts indexed stored data readers := by
  obtain ⟨encrypted, henc, hlen, hdec⟩ := RoundTrip.decryptAes_encryptAes hp.cipher hiv key.property
    (show data.length + 28 ≤ intMax by omega) (some envelope)
  have hsize : 4 + envelope.length + encrypted.length ≤ intMax := by omega
  have hobject : stored =
      writeInt (BitVec.ofNat 32 envelope.length) ++ envelope ++ encrypted := by
    unfold encryptAndEncodeFile at hstored
    rw [henc] at hstored
    have hwritten := encodeEnvelopeAndData_of_le hsize
    exact Except.ok.inj (hstored.symm.trans hwritten)
  intro k hk
  rw [hobject, decodeObject_encode parts.crypto indexed k.val hsize]
  unfold tryDecrypt
  constructor
  · intro hin
    rw [(hopen k hk).1 hin]
    exact mapError_eq_ok.mpr hdec
  · intro hout
    rw [(hopen k hk).2 hout]
    rfl

/-- The act an event can be. -/
def Event.Does : Event → Act Bytes Bytes Bytes (Bytes × Bytes) Bytes → Prop
  | .request _ r, .command c => r.Says c
  | .getEnvelope _ _ _ group, .ticket g => g = group
  | .upload i _ data group filename, .write i' f d =>
    i' = i ∧ f = (group, filename) ∧ d = data
  | .delete group filename, .erase f => f = (group, filename)
  | _, _ => False

/-- A request keeps the keys of the users among `keys`. -/
theorem keys_of_request (hp : parts.Sound) (hr : Rel parts s v) {draw : Draw} (request : Request)
    (hk : draw.key.val ∈ parts.keys) (u k : Bytes)
    (hu : (AnonymBE.processInput (Env.code parts.crypto parts.order) draw s.service
      request).2.database.users[u]? = some k) : k ∈ parts.keys := by
  rcases AnonymBE.command_or_idle parts.crypto parts.order draw s.service request with
    ⟨c, hc⟩ | hidle
  · obtain ⟨verdict, hstep, -⟩ := @AnonymBE.processInput_refines parts.crypto parts.order draw
      s.service request hp.ascii (AnonymBE.integrity_of_reachable hr.reachable)
      (AnonymBE.keysSized_of_reachable hr.reachable) c hc
    rcases hstep.key_cases hu with hold | ⟨hdrawn, -⟩
    · exact hr.keys u k hold
    · rw [← hdrawn]
      exact hk
  · rw [hidle] at hu
    exact hr.keys u k hu

/-- The envelope the client takes out of the answer is the one the service put in. -/
theorem envelope_of_answer (hp : parts.Sound) (hr : Rel parts s v) {draw : Draw}
    {request : Request} {key : Key} {group envelope : Bytes}
    (hgood : draw.Good parts.crypto parts.keys)
    (hcmd : request.Says (.envelope group (parts.http.encode key.val)))
    (hanswer : parts.http.envelope (AnonymBE.processInput (Env.code parts.crypto parts.order) draw
      s.service request).1 = some envelope) :
    (∃ u, s.service.database.policy.Member u group) ∧
      OpensFor parts s.service.indexed key envelope (s.service.database.policy.openers group) := by
  rcases @AnonymBE.envelope_opens parts.crypto parts.order s.service hp.ascii hp.agrees hr.reachable
    draw request group _ hcmd parts.keys hr.keys hgood with hno | ⟨text, ht, hmember, hopen⟩
  · -- a refusal has no envelope
    obtain ⟨what, msg, json, body, kvs, hreply, hparse, hfields⟩ := hno
    rw [hreply, Http.envelope, if_neg (by omega)] at hanswer
    cases hanswer
  · obtain ⟨msg, json, body, hreply, hdump, hfields⟩ := AnonymBE.dumped_of_reads ht
    have hresult := hp.http.field hdump (hfields (lit "result") _ rfl)
    have hcipher := hp.http.field hdump (hfields (lit "ciphertext") _ rfl)
    rw [AnonymBE.processInput_fst, hreply, Http.envelope, if_pos ⟨by omega, by omega, hresult⟩,
      hcipher] at hanswer
    have htext : some text = some envelope := (hp.http.decode text).symm.trans hanswer
    cases htext
    refine ⟨hmember, fun k hk => ?_⟩
    have hkey : resize (parts.crypto.b64Decode (parts.http.encode key.val)) 32 = key.val := by
      rw [hp.http.encode]
      exact resize_of_length key.property
    rw [← hkey]
    exact hopen k hk

/-- A request is a command, or says nothing and does nothing. -/
theorem request_simulates (hp : parts.Sound) (hr : Rel parts s v) {draw : Draw} {request : Request}
    (h : Step parts s (.request draw request) s') :
    ((∀ c, ¬ request.Says c) ∧ Rel parts s' v) ∨ ∃ c v', request.Says c ∧
      Vault.Step v (.command c : Act Bytes Bytes Bytes (Bytes × Bytes) Bytes) v' ∧
      Rel parts s' v' := by
  cases h with
  | request draw request hk =>
    have hreach := AnonymBE.Reachable.step hr.reachable draw request
    have hkeys := keys_of_request hp hr request hk
    by_cases hsays : ∃ c, request.Says c
    · obtain ⟨c, hc⟩ := hsays
      obtain ⟨verdict, hstep, -⟩ := @AnonymBE.processInput_refines parts.crypto parts.order draw
        s.service request hp.ascii (AnonymBE.integrity_of_reachable hr.reachable)
        (AnonymBE.keysSized_of_reachable hr.reachable) c hc
      rw [← hr.policy] at hstep
      exact .inr ⟨c, _, hc, .command hstep, hreach, hkeys, rfl, hr.tickets, hr.files⟩
    · have hidle := (AnonymBE.command_or_idle parts.crypto parts.order draw s.service
        request).resolve_left hsays
      refine .inl ⟨not_exists.mp hsays, hreach, hkeys, ?_, hr.tickets, hr.files⟩
      dsimp only
      rw [hidle]
      exact hr.policy

/-- An envelope is a ticket. -/
theorem getEnvelope_simulates (hp : parts.Sound) (hr : Rel parts s v) {draw : Draw}
    {request : Request} {key : Key} {group : Bytes}
    (h : Step parts s (.getEnvelope draw request key group) s') :
    ∃ v', Vault.Step v (.ticket group : Act Bytes Bytes Bytes (Bytes × Bytes) Bytes) v' ∧
      Rel parts s' v' := by
  cases h with
  | getEnvelope draw request key group envelope hk hgood hcmd hanswer =>
    obtain ⟨hmember, hopens⟩ := envelope_of_answer hp hr hgood hcmd hanswer
    have hreach := AnonymBE.Reachable.step hr.reachable draw request
    have hkeys := keys_of_request hp hr request hk
    obtain ⟨verdict, hstep, -⟩ := @AnonymBE.processInput_refines parts.crypto parts.order draw
      s.service request hp.ascii (AnonymBE.integrity_of_reachable hr.reachable)
      (AnonymBE.keysSized_of_reachable hr.reachable) _ hcmd
    have hsame : (AnonymBE.processInput (Env.code parts.crypto parts.order) draw s.service
        request).2.database.policy = s.service.database.policy := by
      generalize (AnonymBE.processInput (Env.code parts.crypto parts.order) draw s.service
        request).2.database.policy = after at hstep
      cases hstep <;> rfl
    rw [← hr.policy] at hmember hopens
    refine ⟨_, .ticket hmember, hreach, hkeys, ?_, ?_, hr.files⟩
    · dsimp only
      rw [hsame]
      exact hr.policy
    · exact List.rel_append hr.tickets (.cons hopens .nil)

/-- What is held was issued. -/
theorem ticket_of_held (hr : Rel parts s v) {i : ℕ} {key : Key} {envelope : Bytes}
    (hi : s.held[i]? = some (key, envelope)) : ∃ readers, v.tickets[i]? = some readers ∧
      OpensFor parts s.service.indexed key envelope readers := by
  obtain ⟨hlt, hget⟩ := List.getElem?_eq_some_iff.mp hi
  have hlt' : i < v.tickets.length := hr.tickets.length_eq ▸ hlt
  have hopens := hr.tickets.get hlt hlt'
  rw [List.get_eq_getElem, hget] at hopens
  exact ⟨_, List.getElem?_eq_getElem hlt', hopens⟩

/-- An upload is a write. -/
theorem upload_simulates (hp : parts.Sound) (hr : Rel parts s v) {i : ℕ}
    {iv data group filename : Bytes} (h : Step parts s (.upload i iv data group filename) s') :
    ∃ v', Vault.Step v (.write i (group, filename) data :
        Act Bytes Bytes Bytes (Bytes × Bytes) Bytes) v' ∧ Rel parts s' v' := by
  cases h with
  | upload i iv data group filename key envelope cloud hi hiv hfit hup =>
    obtain ⟨readers, hticket, hopens⟩ := ticket_of_held hr hi
    unfold uploadToCloud at hup
    obtain ⟨t, hcreate, hup⟩ := bind_eq_ok.mp hup
    obtain ⟨stored, hstored, hstore⟩ := bind_eq_ok.mp hup
    refine ⟨_, .write hticket (group, filename) data, hr.reachable, hr.keys, hr.policy, hr.tickets,
      fun group' filename' => ?_⟩
    dsimp only
    rw [hp.storage.store hstore, hp.storage.create hcreate]
    by_cases hfile : group' = group ∧ filename' = filename
    · obtain ⟨rfl, rfl⟩ := hfile
      rw [if_pos ⟨rfl, rfl⟩, Vault.files_put_self]
      exact ⟨stored, rfl, decodeObject_of_open hp hiv hfit hstored hopens⟩
    · rw [if_neg hfile, Vault.files_put_of_ne v fun heq => hfile (Prod.mk.inj heq)]
      exact hr.files group' filename'

/-- A deletion is an erasure. -/
theorem delete_simulates (hp : parts.Sound) (hr : Rel parts s v) {group filename : Bytes}
    (h : Step parts s (.delete group filename) s') :
    ∃ v', Vault.Step v (.erase (group, filename) :
        Act Bytes Bytes Bytes (Bytes × Bytes) Bytes) v' ∧ Rel parts s' v' := by
  cases h with
  | delete group filename cloud hdel =>
    refine ⟨_, .erase (group, filename), hr.reachable, hr.keys, hr.policy, hr.tickets,
      fun group' filename' => ?_⟩
    dsimp only
    rw [hp.storage.delete hdel]
    by_cases hfile : group' = group ∧ filename' = filename
    · obtain ⟨rfl, rfl⟩ := hfile
      rw [if_pos ⟨rfl, rfl⟩, Vault.files_put_self]
      rfl
    · rw [if_neg hfile, Vault.files_put_of_ne v fun heq => hfile (Prod.mk.inj heq)]
      exact hr.files group' filename'

/-- The acts of the vault that the events are, one by one and in their order. A request that says
nothing is none. -/
inductive Traced : List Event → List (Act Bytes Bytes Bytes (Bytes × Bytes) Bytes) → Prop where
  | nil : Traced [] []
  | idle {draw : Draw} {request : Request} {events : List Event}
      {acts : List (Act Bytes Bytes Bytes (Bytes × Bytes) Bytes)} (h : ∀ c, ¬ request.Says c)
      (hrest : Traced events acts) : Traced (.request draw request :: events) acts
  | act {e : Event} {a : Act Bytes Bytes Bytes (Bytes × Bytes) Bytes} {events : List Event}
      {acts : List (Act Bytes Bytes Bytes (Bytes × Bytes) Bytes)} (h : e.Does a)
      (hrest : Traced events acts) : Traced (e :: events) (a :: acts)

/-- Each act is one of the events. -/
theorem Traced.does {events : List Event}
    {acts : List (Act Bytes Bytes Bytes (Bytes × Bytes) Bytes)} (h : Traced events acts) :
    ∀ a ∈ acts, ∃ e ∈ events, e.Does a := by
  induction h with
  | nil => exact fun a ha => absurd ha List.not_mem_nil
  | idle _ _ ih =>
    intro a ha
    obtain ⟨e, he, hdoes⟩ := ih a ha
    exact ⟨e, List.mem_cons_of_mem _ he, hdoes⟩
  | @act e a events acts hdoes _ ih =>
    intro a' ha'
    rcases List.mem_cons.mp ha' with rfl | hin
    · exact ⟨e, List.mem_cons_self, hdoes⟩
    · obtain ⟨e', he', hdoes'⟩ := ih a' hin
      exact ⟨e', List.mem_cons_of_mem _ he', hdoes'⟩

/-- A step of the system is an act of the vault, or a request that says nothing. -/
theorem step_simulates (hp : parts.Sound) (hr : Rel parts s v) {e : Event}
    (h : Step parts s e s') :
    (∃ draw request, e = .request draw request ∧ (∀ c, ¬ request.Says c) ∧ Rel parts s' v) ∨
      ∃ a v', e.Does a ∧ Vault.Step v a v' ∧ Rel parts s' v' := by
  cases e with
  | request draw request =>
    rcases request_simulates hp hr h with ⟨hidle, hsame⟩ | ⟨c, v', hc, hstep, hr'⟩
    · exact .inl ⟨draw, request, rfl, hidle, hsame⟩
    · exact .inr ⟨.command c, v', hc, hstep, hr'⟩
  | getEnvelope draw request key group =>
    obtain ⟨v', hstep, hr'⟩ := getEnvelope_simulates hp hr h
    exact .inr ⟨.ticket group, v', rfl, hstep, hr'⟩
  | upload i iv data group filename =>
    obtain ⟨v', hstep, hr'⟩ := upload_simulates hp hr h
    exact .inr ⟨.write i (group, filename) data, v', ⟨rfl, rfl, rfl⟩, hstep, hr'⟩
  | delete group filename =>
    obtain ⟨v', hstep, hr'⟩ := delete_simulates hp hr h
    exact .inr ⟨.erase (group, filename), v', rfl, hstep, hr'⟩

/-- **A run of the system is a run of the vault.** -/
theorem runs_simulate (hp : parts.Sound) (hr : Rel parts s v) {events : List Event}
    (h : Runs parts s events s') :
    ∃ acts v', Vault.Runs v acts v' ∧ Rel parts s' v' ∧ Traced events acts := by
  induction h generalizing v with
  | nil => exact ⟨[], v, .nil, hr, .nil⟩
  | cons hs _ ih =>
    rcases step_simulates hp hr hs with ⟨draw, request, rfl, hidle, hsame⟩ | ⟨a, v₁, hdoes, hstep,
      hr₁⟩
    · obtain ⟨acts, v₂, hruns, hr₂, hacts⟩ := ih hsame
      exact ⟨acts, v₂, hruns, hr₂, .idle hidle hacts⟩
    · obtain ⟨acts, v₂, hruns, hr₂, hacts⟩ := ih hr₁
      exact ⟨a :: acts, v₂, .cons hstep hruns, hr₂, .act hdoes hacts⟩

/-- What the client gets is what the vault lets the key read. -/
theorem retrieve_iff_read (hr : Rel parts s v) (k : Key) (hk : k.val ∈ parts.keys)
    (group filename data : Bytes) :
    retrieveFromCloud parts.crypto s.service.indexed k.val parts.api.toStorageApi s.cloud group
        filename = .ok data ↔ v.read k.val (group, filename) = some data := by
  have hstored := hr.files group filename
  unfold Vault.read
  unfold Storage.found at hstored
  cases hfile : v.files (group, filename) with
  | none =>
    rw [hfile] at hstored
    cases hget : parts.api.getObject s.cloud group filename with
    | ok object =>
      rw [hget] at hstored
      cases hstored
    | error e =>
      unfold retrieveFromCloud
      rw [hget]
      simp [bind, Except.bind]
  | some file =>
    obtain ⟨d, readers⟩ := file
    rw [hfile] at hstored
    obtain ⟨object, hfound, hholds⟩ := hstored
    have hget : parts.api.getObject s.cloud group filename = .ok object := by
      cases hget : parts.api.getObject s.cloud group filename with
      | ok o =>
        rw [hget] at hfound
        rw [Option.some.inj hfound]
      | error e =>
        rw [hget] at hfound
        cases hfound
    rw [retrieveFromCloud_of_get parts.crypto s.service.indexed k.val hget]
    dsimp only
    by_cases hin : k.val ∈ readers
    · rw [if_pos hin, (hholds k hk).1 hin]
      simp
    · rw [if_neg hin, (hholds k hk).2 hin]
      simp

end

/-! ## A sample

The crypto of `upload_then_retrieve_sample`, with a decoder for Base64, a client that reads bodies
as the service does, and a store that is a list. -/

/-- The value of a base64 digit. -/
def b64Value (c : UInt8) : Nat :=
  (lit "ABCDEFGHIJKLMNOPQRSTUVWXYZabcdefghijklmnopqrstuvwxyz0123456789+/").findIdx (· == c)

/-- Base64, decoded. -/
def unb64 : Bytes → Bytes
  | a :: b :: c :: d :: rest =>
    let x := UInt8.ofNat (b64Value a * 4 + b64Value b / 16)
    let y := UInt8.ofNat (b64Value b % 16 * 16 + b64Value c / 4)
    let z := UInt8.ofNat (b64Value c % 4 * 64 + b64Value d)
    if c = 61 then [x] else if d = 61 then [x, y] else x :: y :: z :: unb64 rest
  | _ => []

theorem b64Value_b64Digit (n : Nat) :
    b64Value (Crypto.b64Digit n) = n % 64 ∧ Crypto.b64Digit n ≠ 61 := by
  have htable : ∀ m < 64, b64Value (Crypto.b64Digit m) = m ∧ Crypto.b64Digit m ≠ 61 := by
    decide +kernel
  have hmod : Crypto.b64Digit n = Crypto.b64Digit (n % 64) := by
    unfold Crypto.b64Digit
    rw [Nat.mod_mod]
  rw [hmod]
  exact htable _ (Nat.mod_lt _ (by decide))

theorem unb64_b64 (b : Bytes) : unb64 (Crypto.b64 b) = b := by
  fun_induction Crypto.b64 b with
  | case1 => rfl
  | case2 a =>
    have ha := a.toNat_lt
    have hx : a.toNat / 4 % 64 * 4 + a.toNat * 16 % 64 / 16 = a.toNat := by omega
    simp only [unb64, b64Value_b64Digit, if_pos, hx, UInt8.ofNat_toNat]
  | case3 a b =>
    have ha := a.toNat_lt
    have hb := b.toNat_lt
    have hx : a.toNat / 4 % 64 * 4 + (a.toNat * 16 + b.toNat / 16) % 64 / 16 = a.toNat := by omega
    have hy : (a.toNat * 16 + b.toNat / 16) % 64 % 16 * 16 + b.toNat * 4 % 64 / 4 = b.toNat := by
      omega
    simp only [unb64, (b64Value_b64Digit _).1, if_neg (b64Value_b64Digit _).2, if_pos, hx, hy,
      UInt8.ofNat_toNat]
  | case4 a b c rest ih =>
    have ha := a.toNat_lt
    have hb := b.toNat_lt
    have hc := c.toNat_lt
    have hx : a.toNat / 4 % 64 * 4 + (a.toNat * 16 + b.toNat / 16) % 64 / 16 = a.toNat := by omega
    have hy : (a.toNat * 16 + b.toNat / 16) % 64 % 16 * 16 + (b.toNat * 4 + c.toNat / 64) % 64 / 4 =
        b.toNat := by omega
    have hz : (b.toNat * 4 + c.toNat / 64) % 64 % 4 * 64 + c.toNat % 64 = c.toNat := by omega
    simp only [unb64, (b64Value_b64Digit _).1, if_neg (b64Value_b64Digit _).2, hx, hy, hz, ih,
      UInt8.ofNat_toNat]

def sampleStore : Storage (List ((Bytes × Bytes) × Bytes)) where
  __ := RoundTrip.sampleStorage
  deleteObject s bucketName objectName :=
    .ok (s.filter fun o => o.1 ≠ (bucketName, objectName))

theorem found_sampleStore (s : List ((Bytes × Bytes) × Bytes)) (b o : Bytes) :
    sampleStore.found s b o = (s.find? fun e => e.1 = (b, o)).map (·.2) := by
  unfold Storage.found
  show (RoundTrip.sampleStorage.getObject s b o).toOption = _
  unfold RoundTrip.sampleStorage
  dsimp only
  cases s.find? fun e => e.1 = (b, o) with
  | none => rfl
  | some e => rfl

theorem lawful_sampleStore : sampleStore.Lawful where
  create := by
    intro s s' b h b' o'
    rw [← Except.ok.inj h]
  store := by
    intro s s' b o content h b' o'
    rw [← Except.ok.inj h, found_sampleStore, found_sampleStore, List.find?_cons]
    by_cases hfile : b' = b ∧ o' = o
    · obtain ⟨rfl, rfl⟩ := hfile
      simp
    · have hne : (b, o) ≠ (b', o') := by
        intro heq
        obtain ⟨rfl, rfl⟩ := Prod.mk.inj heq
        exact hfile ⟨rfl, rfl⟩
      rw [if_neg hfile]
      simp [hne]
  delete := by
    intro s s' b o h b' o'
    rw [← Except.ok.inj h, found_sampleStore, found_sampleStore, List.find?_filter]
    by_cases hfile : b' = b ∧ o' = o
    · obtain ⟨rfl, rfl⟩ := hfile
      simp
    · have hne : (b', o') ≠ (b, o) := fun heq => hfile (Prod.mk.inj heq)
      rw [if_neg hfile]
      congr 2
      funext e
      by_cases he : e.1 = (b', o')
      · simp [he, hne]
      · simp [he]

def sampleHttp : Http where
  field body key :=
    match jsonParse body with
    | .ok (.object kvs) =>
      match kvs.lookup key with
      | some (.string v) => some v
      | _ => none
    | _ => none
  encode := Crypto.b64
  decode b := some (unb64 b)

def sampleParts : Parts (List ((Bytes × Bytes) × Bytes)) where
  crypto := { RoundTrip.sampleCloud with b64Decode := unb64 }
  order := .rightFirst
  gcmSeal := RoundTrip.sampleSeal
  api := sampleStore
  http := sampleHttp
  keys := {Crypto.key0.val, Crypto.key1.val}

theorem sampleParts_sound : sampleParts.Sound where
  ascii := Crypto.sample_b64_ascii
  agrees := ⟨Crypto.sample_agrees.1, Crypto.sample_agrees.2⟩
  cipher := RoundTrip.sealAgrees_sample
  storage := lawful_sampleStore
  http := by
    refine ⟨?_, unb64_b64, fun b => congrArg some (unb64_b64 b)⟩
    intro json body key v hdump hget
    obtain ⟨kvs, hparse, hlookup⟩ := jsonParse_of_dump2 hdump
    show sampleHttp.field body key = some v
    unfold sampleHttp
    dsimp only
    rw [hparse]
    dsimp only
    rw [hlookup, hget]
    rfl

/-- Before the first step. -/
structure Initial {σ : Type} (parts : Parts σ) (indexed : Bool) (s : Sys σ) : Prop where
  service : s.service = AnonymBE.initialised indexed
  cloud : ∀ group filename, parts.api.found s.cloud group filename = none
  held : s.held = []

/-- The vault with nothing in it. -/
def emptyVault : Vault Bytes Bytes Bytes (Bytes × Bytes) Bytes := ⟨Policy.empty, [], fun _ => none⟩

theorem rel_initial {σ : Type} {parts : Parts σ} {indexed : Bool} {s : Sys σ}
    (h : Initial parts indexed s) : Rel parts s emptyVault := by
  refine ⟨?_, ?_, ?_, ?_, fun group filename => h.cloud group filename⟩
  · rw [h.service]
    exact .init indexed
  · intro u k hu
    rw [h.service] at hu
    simp [AnonymBE.initialised] at hu
  · rw [h.service]
    exact MemDatabase.policy_empty.symm
  · rw [h.held]
    exact .nil

/-! ## A run of the sample

The users `a` and `b` are created with the keys `00..00` and `01..01`, and the group `g` with `a` as
its member. `a` gets an envelope of `g` for the symmetric key `00..00`. Then `b` joins, `a` uploads
the file `hi`, and `a` is removed. -/

def bucketBody : Bytes :=
  lit ("\x7b\"user_id\": \"a\", " ++
    "\"bucket_key\": \"AAAAAAAAAAAAAAAAAAAAAAAAAAAAAAAAAAAAAAAAAAA=\", \"group_id\": \"g\"\x7d")

theorem bucketBody_command : Request.Says ⟨lit "POST", lit "/verifier/envelope", bucketBody⟩
    (.envelope [103] (sampleHttp.encode Crypto.key0.val)) := by
  obtain ⟨kvs, hparse, hb, hg⟩ : ∃ kvs, jsonParse bucketBody = .ok (.object kvs) ∧
      kvs.lookup (lit "bucket_key") = some (.string (Crypto.b64 Crypto.key0.val)) ∧
      kvs.lookup (lit "group_id") = some (.string [103]) := ⟨_, rfl, rfl, rfl⟩
  refine ⟨rfl, rfl, ?_⟩
  exact @carries_of_fields .sample .rightFirst _ _ _ _ _
    ⟨_, hparse, jsonStr_eq_ok_iff.mpr ⟨kvs, rfl, hb⟩⟩
    ⟨_, hparse, jsonStr_eq_ok_iff.mpr ⟨kvs, rfl, hg⟩⟩

/-- The requests before the envelope. -/
def sampleBefore : List (Draw × Request) :=
  [(Draw.sample, ⟨lit "POST", lit "/access/user", userBody "\"a\""⟩),
    (nextDraw, ⟨lit "POST", lit "/access/user", userBody "\"b\""⟩),
    (nextDraw, ⟨lit "POST", lit "/access/group", membershipBody "\"a\""⟩)]

def sampleService : AnonymBE :=
  AnonymBE.serve (Env.code sampleParts.crypto .rightFirst) (AnonymBE.initialised true) sampleBefore

theorem database_sampleService : sampleService.database =
    ⟨(∅ : Std.ExtTreeMap Bytes Members).insert [103] ((∅ : Members).insert [97]),
      ((∅ : Std.ExtTreeMap Bytes Bytes).insert [97] Crypto.key0.val).insert [98] Crypto.key1.val⟩ :=
  rfl

theorem member_sampleService {u : Bytes} : sampleService.database.Member u [103] ↔ u = [97] := by
  have hg : sampleService.database.groups[([103] : Bytes)]? = some ((∅ : Members).insert [97]) := by
    rw [database_sampleService, getElem?_insert, if_pos rfl]
  rw [MemDatabase.member_iff_of_getElem? hg, mem_insert]
  exact or_iff_left Std.ExtTreeSet.not_mem_empty

theorem key_sampleService :
    sampleService.database.users[([97] : Bytes)]? = some Crypto.key0.val := by
  rw [database_sampleService, getElem?_insert, if_neg (by decide), getElem?_insert, if_pos rfl]

/-- Requests are a run. -/
theorem runs_requests {σ : Type} {parts : Parts σ} (s : Sys σ) (steps : List (Draw × Request))
    (hk : ∀ step ∈ steps, step.1.key.val ∈ parts.keys) :
    Runs parts s (steps.map fun step => .request step.1 step.2)
      { s with service := AnonymBE.serve (Env.code parts.crypto parts.order) s.service steps } := by
  induction steps generalizing s with
  | nil => exact .nil
  | cons step steps ih =>
    refine .cons (.request step.1 step.2 (hk step List.mem_cons_self)) ?_
    exact ih _ fun step' h => hk step' (List.mem_cons_of_mem _ h)

def sampleInit : Sys (List ((Bytes × Bytes) × Bytes)) := ⟨AnonymBE.initialised true, [], []⟩

theorem initial_sampleInit : Initial sampleParts true sampleInit where
  service := rfl
  cloud _ _ := rfl
  held := rfl

theorem runs_sampleBefore :
    Runs sampleParts sampleInit (sampleBefore.map fun step => .request step.1 step.2)
      { sampleInit with service := sampleService } := by
  refine runs_requests sampleInit sampleBefore fun step hstep => ?_
  simp only [sampleBefore, List.mem_cons, List.not_mem_nil, or_false] at hstep
  rcases hstep with rfl | rfl | rfl
  · exact Or.inl rfl
  · exact Or.inr rfl
  · exact Or.inr rfl

def sampleIssued : Bytes :=
  envelopeText sampleParts.crypto true Crypto.zeros12 Crypto.key0.val (fun _ _ => Crypto.zeros12)
    [Crypto.key0]

/-- The file fits. -/
theorem sample_fits : 4 + sampleIssued.length + (lit "hi").length + 28 ≤ intMax := by
  decide +kernel

/-- The state with the envelope. -/
def sampleHeld : Sys (List ((Bytes × Bytes) × Bytes)) where
  service := (AnonymBE.processInput (Env.code sampleParts.crypto .rightFirst) nextDraw sampleService
    ⟨lit "POST", lit "/verifier/envelope", bucketBody⟩).2
  cloud := []
  held := [(Crypto.key0, sampleIssued)]

theorem step_sampleIssue :
    Step sampleParts { sampleInit with service := sampleService }
      (.getEnvelope nextDraw ⟨lit "POST", lit "/verifier/envelope", bucketBody⟩ Crypto.key0 [103])
      sampleHeld := by
  have hanswer : sampleHttp.envelope
      (AnonymBE.processInput (Env.code sampleParts.crypto .rightFirst) nextDraw sampleService
        ⟨lit "POST", lit "/verifier/envelope", bucketBody⟩).1 = some sampleIssued := by
    decide +kernel
  have hgood : nextDraw.Good sampleParts.crypto sampleParts.keys :=
    ⟨rfl, fun _ _ => rfl, hashInjOn_sample, Crypto.sample_separates⟩
  exact .getEnvelope nextDraw _ Crypto.key0 [103] sampleIssued (Or.inr rfl) hgood bucketBody_command
    hanswer

/-- The state after one more request. -/
def afterRequest (s : Sys (List ((Bytes × Bytes) × Bytes))) (request : Request) :
    Sys (List ((Bytes × Bytes) × Bytes)) :=
  { s with service := (AnonymBE.processInput (Env.code sampleParts.crypto sampleParts.order)
      nextDraw s.service request).2 }

theorem runs_afterRequest (s : Sys (List ((Bytes × Bytes) × Bytes))) (request : Request) :
    Runs sampleParts s [.request nextDraw request] (afterRequest s request) :=
  .cons (.request nextDraw request (Or.inr rfl)) .nil

/-- Any file that fits is uploaded to the store of the sample. -/
theorem step_sampleUpload (s : Sys (List ((Bytes × Bytes) × Bytes))) {i : ℕ} {key : Key}
    {envelope data : Bytes} (hi : s.held[i]? = some (key, envelope))
    (hfit : 4 + envelope.length + data.length + 28 ≤ intMax) (group filename : Bytes) :
    ∃ s', Step sampleParts s (.upload i Crypto.zeros12 data group filename) s' := by
  obtain ⟨encrypted, henc, hlen, -⟩ := @RoundTrip.decryptAes_encryptAes RoundTrip.sampleCloud
    RoundTrip.sampleSeal RoundTrip.sealAgrees_sample Crypto.zeros12 key.val data rfl key.property
    (by omega) (some envelope)
  have hstored : encryptAndEncodeFile RoundTrip.sampleSeal Crypto.zeros12 data envelope key.val =
      .ok (writeInt (BitVec.ofNat 32 envelope.length) ++ envelope ++ encrypted) := by
    unfold encryptAndEncodeFile
    rw [henc]
    exact encodeEnvelopeAndData_of_le (by omega)
  refine ⟨_, .upload i Crypto.zeros12 data group filename key envelope (((group, filename),
    writeInt (BitVec.ofNat 32 envelope.length) ++ envelope ++ encrypted) :: s.cloud) hi rfl hfit ?_⟩
  unfold uploadToCloud
  show (encryptAndEncodeFile RoundTrip.sampleSeal Crypto.zeros12 data envelope key.val >>= _) = _
  rw [hstored]
  rfl

/-- Two runs, one after the other. -/
theorem Runs.append {σ : Type} {parts : Parts σ} {s s' s'' : Sys σ} {events events' : List Event}
    (h : Runs parts s events s') (h' : Runs parts s' events' s'') :
    Runs parts s (events ++ events') s'' := by
  induction h with
  | nil => exact h'
  | cons hs _ ih => exact .cons hs (ih h')

/-- What happens in the sample. -/
def sampleEvents : List Event :=
  (sampleBefore.map fun step => .request step.1 step.2) ++
    [.getEnvelope nextDraw ⟨lit "POST", lit "/verifier/envelope", bucketBody⟩ Crypto.key0 [103],
      .request nextDraw ⟨lit "PUT", lit "/access/usergroup", membershipBody "\"b\""⟩,
      .upload 0 Crypto.zeros12 (lit "hi") (lit "g") (lit "f"),
      .request nextDraw ⟨lit "DELETE", lit "/access/usergroup", membershipBody "\"a\""⟩]

theorem runs_sampleEvents : ∃ s, Runs sampleParts sampleInit sampleEvents s := by
  obtain ⟨s, hupload⟩ := step_sampleUpload (afterRequest sampleHeld
    ⟨lit "PUT", lit "/access/usergroup", membershipBody "\"b\""⟩) (i := 0) rfl
    sample_fits (lit "g") (lit "f")
  exact ⟨_, runs_sampleBefore.append (.cons step_sampleIssue
    ((runs_afterRequest sampleHeld _).append (.cons hupload (runs_afterRequest s _))))⟩

/-- **The system is the vault.** Every run of clients, service and store is a run of the vault,
whose acts are the events in their order; and for every user key that can be met, what
`retrieveFromCloud` returns at the end is what the vault lets the key read. -/
theorem system_refines {σ : Type} {parts : Parts σ} (hp : parts.Sound) {indexed : Bool}
    {s s' : Sys σ} (h : Initial parts indexed s) {events : List Event}
    (hruns : Runs parts s events s') :
    ∃ acts v, Vault.Runs emptyVault acts v ∧ Traced events acts ∧
      v.policy = s'.service.database.policy ∧
      ∀ k : Key, k.val ∈ parts.keys → ∀ group filename data,
        retrieveFromCloud parts.crypto s'.service.indexed k.val parts.api.toStorageApi s'.cloud
          group filename = .ok data ↔ v.read k.val (group, filename) = some data := by
  obtain ⟨acts, v, hvault, hr, hacts⟩ := runs_simulate hp (rel_initial h) hruns
  exact ⟨acts, v, hvault, hacts, hr.policy, fun k hk => retrieve_iff_read hr k hk⟩

/-- The theorem for the run of the sample, with its envelope and its upload. -/
theorem system_refines_sample : ∃ s, Runs sampleParts sampleInit sampleEvents s ∧
    ∃ acts v, Vault.Runs emptyVault acts v ∧ Traced sampleEvents acts ∧
      v.policy = s.service.database.policy ∧
      ∀ k : Key, k.val ∈ sampleParts.keys → ∀ group filename data,
        retrieveFromCloud sampleParts.crypto s.service.indexed k.val
          sampleParts.api.toStorageApi s.cloud group filename = .ok data ↔
            v.read k.val (group, filename) = some data := by
  obtain ⟨s, hruns⟩ := runs_sampleEvents
  exact ⟨s, hruns, system_refines sampleParts_sound initial_sampleInit hruns⟩

/-- The event is an upload to the file, or its deletion. -/
def Event.Touches (group filename : Bytes) (e : Event) : Prop :=
  (∃ i iv data, e = .upload i iv data group filename) ∨ e = .delete group filename

theorem spares_of_does {group filename : Bytes} {e : Event}
    {a : Act Bytes Bytes Bytes (Bytes × Bytes) Bytes} (h : ¬ e.Touches group filename)
    (hdoes : e.Does a) : a.Spares (group, filename) := by
  cases e with
  | request draw request => cases a with
    | command c => trivial
    | _ => exact hdoes.elim
  | getEnvelope draw request key g => cases a with
    | ticket g' => trivial
    | _ => exact hdoes.elim
  | upload i iv data g f => cases a with
    | write i' f' d =>
      rintro rfl
      obtain ⟨rfl, rfl⟩ := Prod.mk.inj hdoes.2.1
      exact h (.inl ⟨i, iv, data, rfl⟩)
    | _ => exact hdoes.elim
  | delete g f => cases a with
    | erase f' =>
      rintro rfl
      obtain ⟨rfl, rfl⟩ := Prod.mk.inj hdoes
      exact h (.inr rfl)
    | _ => exact hdoes.elim

/-- **The readers of a file are fixed when its envelope is issued.** In every run in which a client
gets an envelope for `group`, later uploads a file under it, and the file is neither overwritten nor
deleted afterwards: the file is retrieved with the keys of those who were members of `group` when
the envelope was issued, and with no other key. Whoever joins, leaves or is deleted afterwards
changes nothing. -/
theorem readers_fixed_at_issue {σ : Type} {parts : Parts σ} (hp : parts.Sound) {indexed : Bool}
    {s s₀ s₁ s₂ s₃ s₄ : Sys σ} (h : Initial parts indexed s) {before between after : List Event}
    (hbefore : Runs parts s before s₀) {draw : Draw} {request : Request} {key : Key}
    {group : Bytes} (hissue : Step parts s₀ (.getEnvelope draw request key group) s₁)
    (hbetween : Runs parts s₁ between s₂) {iv data place filename : Bytes}
    (hupload : Step parts s₂ (.upload s₀.held.length iv data place filename) s₃)
    (hafter : Runs parts s₃ after s₄) (hkept : ∀ e ∈ after, ¬ e.Touches place filename)
    (k : Key) (hk : k.val ∈ parts.keys) :
    retrieveFromCloud parts.crypto s₄.service.indexed k.val parts.api.toStorageApi s₄.cloud place
        filename = .ok data ↔
      ∃ u, s₀.service.database.Member u group ∧ s₀.service.database.users[u]? = some k.val := by
  obtain ⟨-, v₀, -, hr₀, -⟩ := runs_simulate hp (rel_initial h) hbefore
  obtain ⟨v₁, hticket, hr₁⟩ := getEnvelope_simulates hp hr₀ hissue
  obtain ⟨acts, v₂, hacts, hr₂, -⟩ := runs_simulate hp hr₁ hbetween
  obtain ⟨v₃, hwrite, hr₃⟩ := upload_simulates hp hr₂ hupload
  obtain ⟨acts', v₄, hacts', hr₄, hdoes⟩ := runs_simulate hp hr₃ hafter
  rw [hr₀.tickets.length_eq] at hwrite
  have hspares : ∀ a ∈ acts', a.Spares (place, filename) := by
    intro a ha
    obtain ⟨e, he, hdo⟩ := hdoes.does a ha
    exact spares_of_does (hkept e he) hdo
  have hfile := Vault.file_of_ticket hticket hacts hwrite hacts' hspares
  rw [retrieve_iff_read hr₄ k hk, Vault.read, hfile, hr₀.policy]
  dsimp only
  have hopeners : k.val ∈ s₀.service.database.policy.openers group ↔
      ∃ u, s₀.service.database.Member u group ∧ s₀.service.database.users[u]? = some k.val :=
    exists_congr fun u => and_congr MemDatabase.member_policy Iff.rfl
  rw [← hopeners]
  by_cases hin : k.val ∈ s₀.service.database.policy.openers group
  · rw [if_pos hin]
    exact iff_of_true rfl hin
  · rw [if_neg hin]
    exact iff_of_false (by simp) hin

/-- The theorem for the run of the sample: `a`, who was removed since, retrieves the file, and `b`,
who joined since, does not. -/
theorem readers_fixed_sample : ∃ s : Sys (List ((Bytes × Bytes) × Bytes)),
    retrieveFromCloud sampleParts.crypto s.service.indexed Crypto.key0.val
      sampleParts.api.toStorageApi s.cloud (lit "g") (lit "f") = .ok (lit "hi") ∧
    retrieveFromCloud sampleParts.crypto s.service.indexed Crypto.key1.val
      sampleParts.api.toStorageApi s.cloud (lit "g") (lit "f") ≠ .ok (lit "hi") := by
  have hbetween := runs_afterRequest sampleHeld
    ⟨lit "PUT", lit "/access/usergroup", membershipBody "\"b\""⟩
  obtain ⟨s, hupload⟩ := step_sampleUpload (afterRequest sampleHeld
    ⟨lit "PUT", lit "/access/usergroup", membershipBody "\"b\""⟩) (i := 0) rfl
    sample_fits (lit "g") (lit "f")
  have hafter := runs_afterRequest s
    ⟨lit "DELETE", lit "/access/usergroup", membershipBody "\"a\""⟩
  have hiff := readers_fixed_at_issue sampleParts_sound initial_sampleInit runs_sampleBefore
    step_sampleIssue hbetween hupload hafter (by simp [Event.Touches])
  refine ⟨_, (hiff Crypto.key0 (Or.inl rfl)).mpr ?_, mt (hiff Crypto.key1 (Or.inr rfl)).mp ?_⟩
  · exact ⟨[97], member_sampleService.mpr rfl, key_sampleService⟩
  · rintro ⟨u, hu, hk⟩
    obtain rfl := member_sampleService.mp hu
    exact absurd (Option.some.inj (key_sampleService.symm.trans hk)) (by decide)

end ASky.System
